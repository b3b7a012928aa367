import Cld.Url.Text

/-!
# References and their resolution

URI references as RFC 3986 has them: five components, of which four may be undefined, the text
they are composed to, and the transformation of a reference relative to a base.

* `Components.Valid` is what the grammar asks of the components, apart from what it says of the
  inside of an address in brackets and of the two characters behind a `%`, which nothing here
  depends on.
* `Components.resolve` is the transformation, with the merge of paths, but the dot segments are
  left as they are.
* `Url.Denotes` says which components a `Url` stands for: it does not tell an undefined component
  from an empty one, or an address from a name, and its path has lost its first `/`.
-/

namespace Cld

/-! ## Characters -/

/-- `unreserved`. -/
def isUnreserved (c : Byte) : Bool := isAlpha c || isDigit c || (bytes "-._~").contains c

/-- `sub-delims`. -/
def isSubDelim (c : Byte) : Bool := (bytes "!$&'()*+,;=").contains c

/-- A character of a registered name; a `%` stands for itself. -/
def isRegNameChar (c : Byte) : Bool := isUnreserved c || isSubDelim c || c == 37

/-- `pchar`. -/
def isPchar (c : Byte) : Bool := isRegNameChar c || c == 58 || c == 64

/-! ## Components -/

/-- `[ userinfo "@" ] host [ ":" port ]`. -/
structure Authority where
  userinfo : Option Bytes
  bracketed : Bool
  host : Bytes
  port : Option Bytes
  deriving DecidableEq

structure Components where
  scheme : Option Bytes
  authority : Option Authority
  path : Bytes
  query : Option Bytes
  fragment : Option Bytes
  deriving DecidableEq

namespace Authority

/-- The host and the port as they are written. -/
def hostPort (a : Authority) : Bytes :=
  (if a.bracketed then 91 :: a.host ++ [93] else a.host) ++ delimited 58 a.port

def text (a : Authority) : Bytes := a.userinfo.elim [] (· ++ [64]) ++ a.hostPort

structure Valid (a : Authority) : Prop where
  userinfo : ∀ s ∈ a.userinfo, ∀ c ∈ s, (isRegNameChar c || c == 58) = true
  address : a.bracketed = true → ∀ c ∈ a.host, (isRegNameChar c || c == 58) = true
  name : a.bracketed = false → ∀ c ∈ a.host, isRegNameChar c = true
  port : ∀ s ∈ a.port, ∀ c ∈ s, isDigit c = true

end Authority

namespace Components

/-- What follows the path. -/
def suffix (r : Components) : Bytes := delimited 63 r.query ++ delimited 35 r.fragment

/-- The composition of the components. -/
def text (r : Components) : Bytes :=
  r.scheme.elim [] (· ++ [58]) ++
    (r.authority.elim [] (fun a => [47, 47] ++ a.text) ++ (r.path ++ r.suffix))

/-- The first segment of the path. -/
def firstSegment (r : Components) : Bytes := r.path.takeWhile (· != 47)

structure Valid (r : Components) : Prop where
  scheme : ∀ s ∈ r.scheme, (∃ c ∈ s.head?, isAlpha c = true) ∧
    ∀ c ∈ s, (isAlpha c || isDigit c || (bytes "+-.").contains c) = true
  authority : ∀ a ∈ r.authority, a.Valid
  path : ∀ c ∈ r.path, (isPchar c || c == 47) = true
  query : ∀ s ∈ r.query, ∀ c ∈ s, (isPchar c || c == 47 || c == 63) = true
  fragment : ∀ s ∈ r.fragment, ∀ c ∈ s, (isPchar c || c == 47 || c == 63) = true
  /-- Behind an authority the path is empty or begins with a slash. -/
  rooted : r.authority ≠ none → Starts [47] r.path
  /-- Without one it does not begin with two slashes. -/
  unambiguous : r.authority = none → ¬ [47, 47] <+: r.path
  /-- What could be taken for a scheme is none. -/
  noscheme : r.scheme = none → r.authority = none → 58 ∉ r.firstSegment

/-- The path of a reference that has no slash in front, relative to a base. -/
def merge (base r : Components) : Bytes :=
  if base.authority ≠ none ∧ base.path = [] then 47 :: r.path
  else (base.path.reverse.dropWhile (· != 47)).reverse ++ r.path

/-- **The transformation of references**; the dot segments are left. -/
def resolve (base r : Components) : Components :=
  if r.scheme ≠ none then r
  else if r.authority ≠ none then { r with scheme := base.scheme }
  else if r.path = [] then
    { base with query := r.query.or base.query, fragment := r.fragment }
  else if r.path.head? = some 47 then
    { r with scheme := base.scheme, authority := base.authority }
  else { r with scheme := base.scheme, authority := base.authority, path := base.merge r }

end Components

/-- The components that the fields of a `Url` stand for. -/
structure Url.Denotes (url : Url) (r : Components) : Prop where
  scheme : r.scheme = some url.scheme
  authority : ∃ a, r.authority = some a ∧ a.userinfo = none ∧ a.host = url.host ∧
    a.port.getD [] = url.port
  path : r.path = 47 :: url.path ∨ r.path = [] ∧ url.path = []
  query : r.query.getD [] = url.query
  fragment : r.fragment.getD [] = url.fragment

/-! ## The same text, taken apart in two ways -/

section Cuts

variable {r : Components} {a : Authority} {t : UrlText}

lemma isPchar_notMem : ∀ c : Byte, (isPchar c || c == 47) = true → c ∉ ([63, 35] : Bytes) :=
  notMem_of_any (by decide)

lemma isQuery_notMem : ∀ c : Byte, (isPchar c || c == 47 || c == 63) = true →
    c ∉ ([35] : Bytes) :=
  notMem_of_any (by decide)

lemma isPathChar_notMem : ∀ c : Byte, isPathChar c = true → c ∉ ([63, 35] : Bytes) :=
  notMem_of_any (by decide)

lemma isQueryChar_notMem : ∀ c : Byte, isQueryChar c = true → c ∉ ([35] : Bytes) :=
  notMem_of_any (by decide)

lemma Components.starts_suffix (r : Components) : Starts [63, 35] r.suffix :=
  (starts_delimited r.fragment).delimited

/-- The query and the fragment. -/
lemma suffix_inj {query fragment query' fragment' : Option Bytes}
    (hquery : ∀ s ∈ query, ∀ c ∈ s, c ∉ ([35] : Bytes))
    (hquery' : ∀ s ∈ query', ∀ c ∈ s, c ∉ ([35] : Bytes))
    (h : delimited 63 query ++ delimited 35 fragment =
      delimited 63 query' ++ delimited 35 fragment') :
    query = query' ∧ fragment = fragment' := by
  have hchars : ∀ {part : Option Bytes}, (∀ s ∈ part, ∀ c ∈ s, c ∉ ([35] : Bytes)) →
      ∀ c ∈ delimited 63 part, c ∉ ([35] : Bytes) := by
    intro part hpart c hc
    cases part with
    | none => cases hc
    | some s =>
      rcases List.mem_cons.1 hc with rfl | hc
      · decide
      · exact hpart s rfl c hc
  obtain ⟨hfirst, hsecond⟩ := (starts_delimited fragment).cut (starts_delimited fragment')
    (hchars hquery) (hchars hquery') h
  exact ⟨delimited_inj hfirst, delimited_inj hsecond⟩

/-- The path, the query and the fragment. -/
lemma Components.Valid.path_inj (h : r.Valid) {path : Bytes} {query fragment : Option Bytes}
    (hpath : ∀ c ∈ path, c ∉ ([63, 35] : Bytes))
    (hquery : ∀ s ∈ query, ∀ c ∈ s, isQueryChar c = true)
    (heq : r.path ++ r.suffix = path ++ (delimited 63 query ++ delimited 35 fragment)) :
    r.path = path ∧ r.query = query ∧ r.fragment = fragment := by
  obtain ⟨hfirst, hsecond⟩ := r.starts_suffix.cut (starts_delimited fragment).delimited
    (fun c hc => isPchar_notMem c (h.path c hc)) hpath heq
  exact ⟨hfirst, suffix_inj (fun s hs c hc => isQuery_notMem c (h.query s hs c hc))
    (fun s hs c hc => isQueryChar_notMem c (hquery s hs c hc)) hsecond⟩

section HostPort

variable {delimiters host : Bytes} {bracketed : Bool} {port : Option Bytes}

/-- The host and the port have none of these characters. -/
lemma hostPort_avoids (hhost : ∀ c ∈ host, c ∉ delimiters)
    (hbrackets : bracketed = true → 91 ∉ delimiters ∧ 93 ∉ delimiters) (hcolon : 58 ∉ delimiters)
    (hport : ∀ s ∈ port, ∀ c ∈ s, c ∉ delimiters) :
    ∀ c ∈ (if bracketed then 91 :: host ++ [93] else host) ++ delimited 58 port,
      c ∉ delimiters := by
  intro c hc
  rcases List.mem_append.1 hc with hc | hc
  · split_ifs at hc with hbracketed
    · obtain ⟨hopen, hclose⟩ := hbrackets hbracketed
      rcases List.mem_append.1 hc with hc | hc
      · rcases List.mem_cons.1 hc with rfl | hc
        · exact hopen
        · exact hhost c hc
      · rw [List.mem_singleton.1 hc]
        exact hclose
    · exact hhost c hc
  · cases port with
    | none => cases hc
    | some s =>
      rcases List.mem_cons.1 hc with rfl | hc
      · exact hcolon
      · exact hport s rfl c hc

end HostPort

lemma isDigit_notMem : ∀ c : Byte, isDigit c = true → c ∉ ([47, 63, 35, 64, 91] : Bytes) :=
  notMem_of_any (by decide)

lemma isAddress_notMem : ∀ c : Byte, (isRegNameChar c || c == 58) = true →
    c ∉ ([47, 63, 35, 64, 91, 93] : Bytes) :=
  notMem_of_any (by decide)

lemma isRegNameChar_notMem : ∀ c : Byte, isRegNameChar c = true →
    c ∉ ([47, 63, 35, 64, 91, 58] : Bytes) :=
  notMem_of_any (by decide)

lemma isHostChar_notMem : ∀ c : Byte, isHostChar c = true →
    c ∉ ([47, 63, 35, 64, 91, 58] : Bytes) :=
  notMem_of_any (by decide)

lemma isIpv6Char_notMem : ∀ c : Byte, isIpv6Char c = true →
    c ∉ ([47, 63, 35, 64, 91, 93] : Bytes) :=
  notMem_of_any (by decide)

/-- A smaller set of characters is avoided as well. -/
lemma notMem_of_subset {s more fewer : Bytes} (h : ∀ c ∈ s, c ∉ more) (hsub : fewer ⊆ more) :
    ∀ c ∈ s, c ∉ fewer :=
  fun c hc hmem => h c hc (hsub hmem)

lemma UrlText.host_notMem (t : UrlText) : ∀ c ∈ t.host, c ∉ ([47, 63, 35, 64, 91] : Bytes) := by
  cases hbracketed : t.bracketed with
  | false =>
    have hhost : ∀ c ∈ t.host, c ∉ ([47, 63, 35, 64, 91, 58] : Bytes) := fun c hc =>
      isHostChar_notMem c (by simpa [hbracketed] using t.host_chars c hc)
    exact notMem_of_subset hhost (by simp)
  | true =>
    have hhost : ∀ c ∈ t.host, c ∉ ([47, 63, 35, 64, 91, 93] : Bytes) := fun c hc =>
      isIpv6Char_notMem c (by simpa [hbracketed] using t.host_chars c hc)
    exact notMem_of_subset hhost (by simp)

lemma UrlText.hostPort_notMem (t : UrlText) :
    ∀ c ∈ t.hostText ++ delimited 58 t.port, c ∉ ([47, 63, 35, 64] : Bytes) := by
  apply hostPort_avoids (notMem_of_subset t.host_notMem (by simp))
  · intro _
    decide
  · decide
  · intro s hs
    exact notMem_of_subset (fun c hc => isDigit_notMem c ((t.port_chars s hs).2 c hc)) (by simp)

lemma Authority.Valid.host_notMem (h : a.Valid) :
    ∀ c ∈ a.host, c ∉ ([47, 63, 35, 64, 91] : Bytes) := by
  cases hbracketed : a.bracketed with
  | false =>
    have hname := fun c hc => isRegNameChar_notMem c (h.name hbracketed c hc)
    exact notMem_of_subset hname (by simp)
  | true =>
    have haddress := fun c hc => isAddress_notMem c (h.address hbracketed c hc)
    exact notMem_of_subset haddress (by simp)

lemma Authority.Valid.port_notMem (h : a.Valid) :
    ∀ s ∈ a.port, ∀ c ∈ s, c ∉ ([47, 63, 35, 64, 91] : Bytes) :=
  fun s hs c hc => isDigit_notMem c (h.port s hs c hc)

lemma Authority.Valid.text_notMem (h : a.Valid) : ∀ c ∈ a.text, c ∉ ([47, 63, 35] : Bytes) := by
  intro c hc
  rcases List.mem_append.1 hc with hc | hc
  · cases huser : a.userinfo with
    | none => simp [huser] at hc
    | some s =>
      rw [huser, Option.elim_some] at hc
      rcases List.mem_append.1 hc with hc | hc
      · exact notMem_of_subset (fun c hc => isAddress_notMem c (h.userinfo s huser c hc)) (by simp)
          c hc
      · rw [List.mem_singleton.1 hc]
        decide
  · apply hostPort_avoids (notMem_of_subset h.host_notMem (by simp)) _ (by decide) _ c hc
    · intro _
      decide
    · intro s hs
      exact notMem_of_subset (h.port_notMem s hs) (by simp)

/-- What is accepted as a host and a port has no user information. -/
lemma Authority.userinfo_eq_none (heq : a.text = t.hostText ++ delimited 58 t.port) :
    a.userinfo = none := by
  cases huser : a.userinfo with
  | none => rfl
  | some s =>
    have hmem : 64 ∈ a.text := by
      rw [Authority.text, huser]
      simp
    rw [heq] at hmem
    exact absurd (List.mem_cons_of_mem _ (List.mem_cons_of_mem _ (List.mem_cons_of_mem _
      List.mem_cons_self))) (t.hostPort_notMem 64 hmem)

/-- An opening bracket is there on both sides or on neither. -/
lemma Authority.Valid.bracketed_eq (h : a.Valid)
    (heq : a.hostPort = t.hostText ++ delimited 58 t.port) : a.bracketed = t.bracketed := by
  have hopen : a.bracketed = false → 91 ∉ a.hostPort := fun hbracketed hmem =>
    hostPort_avoids (notMem_of_subset h.host_notMem (by simp)) (by simp [hbracketed]) (by decide)
      (fun s hs => notMem_of_subset (h.port_notMem s hs) (by simp)) 91 hmem
      (List.mem_singleton.2 rfl)
  have hopen' : t.bracketed = false → 91 ∉ t.hostText ++ delimited 58 t.port :=
    fun hbracketed hmem =>
      hostPort_avoids (notMem_of_subset t.host_notMem (by simp)) (by simp [hbracketed])
        (by decide) (fun s hs => notMem_of_subset
          (fun c hc => isDigit_notMem c ((t.port_chars s hs).2 c hc)) (by simp)) 91 hmem
        (List.mem_singleton.2 rfl)
  cases hbracketed : a.bracketed with
  | false =>
    by_contra hnot
    apply hopen hbracketed
    rw [heq, UrlText.hostText, if_pos (Bool.eq_true_of_not_eq_false (Ne.symm hnot))]
    simp
  | true =>
    by_contra hnot
    apply hopen' (Bool.eq_false_of_not_eq_true (Ne.symm hnot))
    rw [← heq, Authority.hostPort, if_pos hbracketed]
    simp

/-- **The authority**: what is accepted as a host and a port has no user information, and it is
the host and the port. -/
lemma Authority.Valid.inj (h : a.Valid) (heq : a.text = t.hostText ++ delimited 58 t.port) :
    a.userinfo = none ∧ a.host = t.host ∧ a.port = t.port := by
  have huser := Authority.userinfo_eq_none heq
  have hhostPort : a.hostPort = t.hostText ++ delimited 58 t.port := by
    rw [← heq, Authority.text, huser]
    rfl
  have hsame := h.bracketed_eq hhostPort
  refine ⟨huser, ?_⟩
  cases hbracketed : a.bracketed with
  | false =>
    have hplain : t.bracketed = false := hsame.symm.trans hbracketed
    have hcut : a.host ++ delimited 58 a.port = t.host ++ delimited 58 t.port := by
      rwa [Authority.hostPort, UrlText.hostText, hbracketed, hplain] at hhostPort
    have hname : ∀ c ∈ t.host, c ∉ ([58] : Bytes) := notMem_of_subset
      (fun c hc => isHostChar_notMem c (by simpa [hplain] using t.host_chars c hc)) (by simp)
    obtain ⟨hhost, hport⟩ := (starts_delimited a.port).cut (starts_delimited t.port)
      (notMem_of_subset (fun c hc => isRegNameChar_notMem c (h.name hbracketed c hc)) (by simp))
      hname hcut
    exact ⟨hhost, delimited_inj hport⟩
  | true =>
    have hbracketed' : t.bracketed = true := hsame.symm.trans hbracketed
    have hcut : a.host ++ (93 :: delimited 58 a.port) = t.host ++ (93 :: delimited 58 t.port) := by
      rw [Authority.hostPort, UrlText.hostText, hbracketed, hbracketed'] at hhostPort
      simpa using hhostPort
    have haddress : ∀ c ∈ t.host, c ∉ ([93] : Bytes) := notMem_of_subset
      (fun c hc => isIpv6Char_notMem c (by simpa [hbracketed'] using t.host_chars c hc)) (by simp)
    have hclose : ∀ rest, Starts [93] (93 :: rest) := by simp [Starts]
    obtain ⟨hhost, hport⟩ := (hclose _).cut (hclose _)
      (notMem_of_subset (fun c hc => isAddress_notMem c (h.address hbracketed c hc)) (by simp))
      haddress hcut
    exact ⟨hhost, delimited_inj (List.cons.inj hport).2⟩

end Cuts

end Cld
