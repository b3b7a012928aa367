import Cld.Body.Loop
import Cld.Model.Numerals

/-!
# Where a body of known length ends

The buffer that `CreateBuffer` chooses for a response with a `Content-Length`, called over and
over on one stream.

* `Buffer.calls` is the calls, with the bytes they hand out, and `Buffer.request` what the next
  of them asks of the stream.
* `Frames S n b` is what the length `n` promises: the calls hand out the next `n` bytes of the
  stream, ask for none behind them, and the buffer is finished when they have all come.
* `FixLengthBuffer` keeps the promise (`frames_fixLength`), and `NoLengthBuffer` keeps it for no
  `n` (`not_frames_noLength`): it asks for a whole array each time, and waits for the peer to
  close.

`CreateBuffer` takes the first only if the response has the header `Connection: keep-alive`,
letter by letter, although the connections of HTTP/1.1 persist without it, and although the
size of the file is taken from the same header whatever `Connection` says.
-/

namespace Cld

open Framework

/-- The response carries the length `n`, in decimal digits; blanks may follow them. -/
def ContentLength (response : Response) (n : ℕ) : Prop :=
  ∃ digits blanks,
    SortedMap.find response.headers (bytes "Content-Length") = some (digits ++ blanks) ∧
      Numeral 10 digits n ∧ ∀ c ∈ blanks, isBlank c = true

/-- The stream neither ends nor fails. -/
def Steadfast (items : Inbound) : Prop :=
  ∀ item ∈ items, item = .again ∨ ∃ b brk, item = .byte b brk

namespace Buffer

/-- How many bytes the next `read` asks of the stream at once. -/
def request (b : Buffer) (S : ℕ) : ℕ :=
  match b.kind with
  | .noLength _ => S
  | .fixLength remain => min remain S
  | .chunked chunkRemain => if chunkRemain = -1 then 1 else min chunkRemain.toNat S

/-- So many calls of `read`, whether they return or not: the bytes they hand out, the buffer
and the rest of the stream. -/
def calls (S : ℕ) : ℕ → Buffer → Inbound → Bytes × Buffer × Inbound
  | 0, b, items => ([], b, items)
  | count + 1, b, items =>
    match b.read S items with
    | (.ok, b', rest) =>
      let (out, after) := calls S count b' rest
      (b'.valid ++ out, after)
    | (_, b', rest) => calls S count b' rest

/-- **The buffer delivers a body of `n` bytes**, over any stream. -/
structure Frames (S n : ℕ) (b : Buffer) : Prop where
  /-- What is handed out are the next bytes of the stream. -/
  delivers : ∀ count items, (calls S count b items).1 <+: payload items
  /-- No byte behind the body is asked for. -/
  within : ∀ count items,
    (calls S count b items).1.length + (calls S count b items).2.1.request S ≤ n
  finished_iff : ∀ count items,
    (calls S count b items).2.1.finished = true ↔ (calls S count b items).1.length = n
  /-- The end is reached when the bytes are there. -/
  completes : ∀ items, Steadfast items → n ≤ (payload items).length →
    ∃ count, (calls S count b items).2.1.finished = true

variable {S n : ℕ} {b b' : Buffer} {items rest : Inbound} {r : ReadOutcome}

/-! ## The buffer with a length -/

lemma takeRun_suffix (count : ℕ) (items : Inbound) : (takeRun count items).2 <:+ items := by
  induction count generalizing items with
  | zero => exact List.suffix_rfl
  | succ count ih =>
    rcases items with _ | ⟨⟨b, brk⟩ | _ | _ | e, items⟩
    · exact List.suffix_rfl
    · cases brk with
      | true => exact List.suffix_cons _ items
      | false => exact (ih items).trans (List.suffix_cons _ items)
    all_goals exact List.suffix_rfl

/-- A read gets on unless the stream is over. -/
lemma suffix_of_read {count : ℕ} {item : Incoming} {res : ReadResult} (hcount : count ≠ 0)
    (hitem : item = .again ∨ ∃ b brk, item = .byte b brk)
    (h : Inbound.read count (item :: items) = (res, rest)) :
    rest <:+ items := by
  rcases hitem with rfl | ⟨b, brk, rfl⟩
  · simp only [Inbound.read, hcount, if_false, Prod.mk.injEq] at h
    obtain ⟨-, rfl⟩ := h
    exact List.suffix_rfl
  · simp only [Inbound.read, hcount, if_false, Prod.mk.injEq] at h
    obtain ⟨more, rfl⟩ := Nat.exists_eq_succ_of_ne_zero hcount
    rw [← h.2]
    cases brk with
    | true => exact List.suffix_rfl
    | false => exact takeRun_suffix more items

/-- A read of a buffer that is not chunked is one read of the stream. -/
lemma exists_read_request (hkind : ∀ c, b.kind ≠ .chunked c)
    (h : b.read S items = (r, b', rest)) : ∃ res, items.read (b.request S) = (res, rest) := by
  have hfill : ∀ {count note}, b.fill count items note = (r, b', rest) →
      ∃ res, items.read count = (res, rest) := by
    intro count note hfill
    by_cases hr : r = .ok
    · subst hr
      obtain ⟨bs, hread, -⟩ := fill_ok hfill
      exact ⟨_, hread⟩
    · obtain ⟨-, res, hread, -⟩ := fill_not_ok hfill hr
      exact ⟨res, hread⟩
  unfold request
  rcases read_cases h with ⟨finished, hkind', h'⟩ | ⟨remain, hkind', h'⟩ | ⟨c, hkind'⟩
  · rw [hkind']
    exact hfill h'
  · rw [hkind']
    exact hfill h'
  · exact absurd hkind' (hkind c)

/-- One call takes some of the bytes that remain, or nothing. -/
lemma read_of_fixLength {remain : ℕ} (hkind : b.kind = .fixLength remain)
    (h : b.read S items = (r, b', rest)) :
    ∃ bs, payload items = bs ++ payload rest ∧ bs.length ≤ remain ∧
      b'.kind = .fixLength (remain - bs.length) ∧ (r = .ok → b'.valid = bs) ∧
        (r ≠ .ok → bs = []) := by
  rcases read_cases h with ⟨finished, hkind', -⟩ | ⟨remain', hkind', hfill⟩ | ⟨c, hkind'⟩
  · rw [hkind] at hkind'
    cases hkind'
  · obtain rfl : remain = remain' := by
      rw [hkind] at hkind'
      exact BufferKind.fixLength.inj hkind'
    by_cases hr : r = .ok
    · subst hr
      obtain ⟨bs, hread, rfl⟩ := fill_ok hfill
      have hle : bs.length ≤ min remain S := (Inbound.read_ok hread).2.1
      refine ⟨bs, (Inbound.read_ok hread).1, hle.trans (min_le_left _ _), rfl, ?_, ?_⟩
      · intro _
        exact List.take_length
      · intro hne
        exact absurd rfl hne
    · obtain ⟨rfl, res, hread, hres⟩ := fill_not_ok hfill hr
      refine ⟨[], ?_, Nat.zero_le _, hkind, ?_, ?_⟩
      · exact (Inbound.payload_of_read hread hres).symm
      · intro hok
        exact absurd hok hr
      · intro _
        rfl
  · rw [hkind] at hkind'
    cases hkind'

/-- **Any number of calls.** -/
lemma calls_of_fixLength {remain : ℕ} (hkind : b.kind = .fixLength remain) (count : ℕ)
    (items : Inbound) : ∃ out b' rest, calls S count b items = (out, b', rest) ∧
      payload items = out ++ payload rest ∧ out.length ≤ remain ∧
        b'.kind = .fixLength (remain - out.length) := by
  induction count generalizing b remain items with
  | zero => exact ⟨[], b, items, rfl, rfl, Nat.zero_le _, hkind⟩
  | succ count ih =>
    rcases hread : b.read S items with ⟨r, b₁, rest₁⟩
    obtain ⟨bs, hpay, hle, hkind₁, hok, hnot⟩ := read_of_fixLength hkind hread
    obtain ⟨out, b', rest, hcalls, hpay', hle', hkind'⟩ := ih hkind₁ rest₁
    have hboth : payload items = bs ++ out ++ payload rest := by
      rw [hpay, hpay', List.append_assoc]
    have hlength : (bs ++ out).length ≤ remain := by
      rw [List.length_append]
      omega
    have hremain : b'.kind = .fixLength (remain - (bs ++ out).length) := by
      rw [hkind', List.length_append, Nat.sub_sub]
    refine ⟨bs ++ out, b', rest, ?_, hboth, hlength, hremain⟩
    by_cases hr : r = .ok
    · subst hr
      simp only [calls, hread, hcalls, hok rfl]
    · obtain rfl := hnot hr
      cases r with
      | ok => exact absurd rfl hr
      | again => simp only [calls, hread, hcalls, List.nil_append]
      | threw e => simp only [calls, hread, hcalls, List.nil_append]

/-- While bytes remain and the stream has something, a call gets on. -/
lemma exists_calls_finished (hS : S ≠ 0) {remain : ℕ} (hkind : b.kind = .fixLength remain)
    (hitems : Steadfast items) (hlength : remain ≤ (payload items).length) :
    ∃ count, (calls S count b items).2.1.finished = true := by
  induction hN : items.length using Nat.strongRecOn generalizing items b remain with
  | ind N ih =>
    by_cases hzero : remain = 0
    · refine ⟨0, ?_⟩
      show b.finished = true
      rw [finished, hkind, hzero]
      rfl
    · cases items with
      | nil => exact absurd (Nat.le_zero.1 hlength) hzero
      | cons item items =>
        obtain ⟨hitem, hsteadfast⟩ := List.forall_mem_cons.1 hitems
        rcases hread : b.read S (item :: items) with ⟨r, b₁, rest₁⟩
        obtain ⟨bs, hpay, hle, hkind₁, -, -⟩ := read_of_fixLength hkind hread
        obtain ⟨res, hstream⟩ := exists_read_request (by simp [hkind]) hread
        rw [request, hkind] at hstream
        have hasks : min remain S ≠ 0 := by omega
        have hsuffix : rest₁ <:+ items := suffix_of_read hasks hitem hstream
        have hshort : rest₁.length < N := by
          rw [← hN, List.length_cons]
          exact Nat.lt_succ_of_le hsuffix.length_le
        have hlength₁ : remain - bs.length ≤ (payload rest₁).length := by
          rw [hpay, List.length_append] at hlength
          omega
        obtain ⟨count, hfin⟩ := ih _ hshort hkind₁
          (fun item hmem => hsteadfast item (hsuffix.mem hmem)) hlength₁ rfl
        refine ⟨count + 1, ?_⟩
        simp only [calls, hread]
        cases r <;> exact hfin

/-- **`FixLengthBuffer` delivers its length.** -/
lemma frames_fixLength (hS : S ≠ 0) (n : ℕ) : Frames S n { kind := .fixLength n } where
  delivers count items := by
    obtain ⟨out, b', rest, hcalls, hpay, -⟩ :=
      calls_of_fixLength (S := S) (b := { kind := .fixLength n }) rfl count items
    rw [hcalls, hpay]
    exact List.prefix_append _ _
  within count items := by
    obtain ⟨out, b', rest, hcalls, -, hle, hkind⟩ :=
      calls_of_fixLength (S := S) (b := { kind := .fixLength n }) rfl count items
    rw [hcalls, request, hkind]
    show out.length + min (n - out.length) S ≤ n
    omega
  finished_iff count items := by
    obtain ⟨out, b', rest, hcalls, -, hle, hkind⟩ :=
      calls_of_fixLength (S := S) (b := { kind := .fixLength n }) rfl count items
    rw [hcalls, finished, hkind]
    show (n - out.length == 0) = true ↔ out.length = n
    rw [beq_iff_eq]
    omega
  completes items hitems hlength :=
    exists_calls_finished hS (b := { kind := .fixLength n }) rfl hitems hlength

/-! ## The buffer without one -/

/-- Bytes that come one at a time are handed out one at a time. -/
lemma calls_of_noLength (hS : S ≠ 0) (count : ℕ) (hkind : b.kind = .noLength false) :
    ∃ b', calls S count b (List.replicate count (.byte 0 true)) =
      (List.replicate count 0, b', []) ∧ b'.kind = .noLength false := by
  induction count generalizing b with
  | zero => exact ⟨b, rfl, hkind⟩
  | succ count ih =>
    obtain ⟨size, rfl⟩ := Nat.exists_eq_succ_of_ne_zero hS
    have hread : b.read (size + 1) (List.replicate (count + 1) (.byte 0 true)) =
        (.ok, ⟨.noLength false, [0], 1⟩, List.replicate count (.byte 0 true)) := by
      simp only [read, hkind, readNoLength, fill, List.replicate_succ, Inbound.read, takeRun]
      simp
    obtain ⟨b', hcalls, hkind'⟩ := ih (b := ⟨.noLength false, [0], 1⟩) rfl
    refine ⟨b', ?_, hkind'⟩
    rw [calls, hread]
    simp only [hcalls, valid, List.replicate_succ]
    rfl

/-- **`NoLengthBuffer` delivers no length**: behind the last byte of the body it asks for
more. -/
lemma not_frames_noLength (hS : S ≠ 0) (n : ℕ) : ¬ Frames S n { kind := .noLength false } := by
  intro h
  obtain ⟨b', hcalls, hkind⟩ :=
    calls_of_noLength hS n (b := { kind := .noLength false }) rfl
  have hwithin := h.within n (List.replicate n (.byte 0 true))
  rw [hcalls, request, hkind] at hwithin
  simp only [List.length_replicate] at hwithin
  omega

end Buffer

/-! ## The choice -/

section Choice

variable {response : Response} {n S : ℕ}

lemma extractSize_of_contentLength (h : ContentLength response n) :
    extractSize (response.get "Content-Length") = if n < 2 ^ 64 then some n else none := by
  obtain ⟨digits, blanks, hfind, hnumeral, hblanks⟩ := h
  have hget : response.get "Content-Length" = digits ++ blanks := by
    rw [Response.get, hfind]
    rfl
  rw [hget]
  apply extractSize_numeral hnumeral
  intro c hc
  have hblank : ∀ c : Byte, isBlank c = true → digitValue 10 c = none := by
    decide +kernel
  exact hblank c (hblanks c (List.mem_of_mem_head? hc))

/-- The three ways of `CreateBuffer` for a response with a length. -/
lemma createBuffer_of_contentLength
    (hencoding : SortedMap.find response.headers (bytes "Transfer-Encoding") = none)
    (hlength : ContentLength response n) : CreateBuffer response =
      if response.get "Connection" = bytes "keep-alive" then
        if n < 2 ^ 64 then .ok { kind := .fixLength n }
        else .error (.runtimeError "Failed to get content length")
      else .ok { kind := .noLength false } := by
  have hnone : response.get "Transfer-Encoding" ≠ bytes "chunked" := by
    rw [Response.get, hencoding]
    decide
  unfold CreateBuffer
  rw [if_neg hnone, extractSize_of_contentLength hlength]
  split_ifs <;> rfl

/-- **When the length of a body is honoured**: exactly when the response says `keep-alive`, in
these letters, and the length fits into 64 bits. -/
theorem body_length_iff (hS : S ≠ 0)
    (hencoding : SortedMap.find response.headers (bytes "Transfer-Encoding") = none)
    (hlength : ContentLength response n) :
    (∃ b, CreateBuffer response = .ok b ∧ Buffer.Frames S n b) ↔
      response.get "Connection" = bytes "keep-alive" ∧ n < 2 ^ 64 := by
  rw [createBuffer_of_contentLength hencoding hlength]
  split_ifs with hconnection hfits
  · refine iff_of_true ⟨_, rfl, Buffer.frames_fixLength hS n⟩ ⟨hconnection, hfits⟩
  · refine iff_of_false ?_ fun h => hfits h.2
    rintro ⟨b, hb, -⟩
    cases hb
  · refine iff_of_false ?_ fun h => hconnection h.1
    rintro ⟨b, hb, hframes⟩
    obtain rfl := Except.ok.inj hb
    exact Buffer.not_frames_noLength hS n hframes

/-- Three bytes over a connection that is kept. -/
def keepAliveThree : Response where
  headers := [(bytes "Connection", bytes "keep-alive"), (bytes "Content-Length", bytes "3")]

theorem body_length_keepAlive :
    ∃ b, CreateBuffer keepAliveThree = .ok b ∧ Buffer.Frames kBufferSize 3 b :=
  (body_length_iff (by decide) (by decide)
    ⟨bytes "3", [], rfl, ⟨by decide, by decide +kernel, rfl⟩, List.forall_mem_nil _⟩).2
    ⟨rfl, by decide⟩

/-- **Without a `Connection` header the length is not honoured**, in HTTP/1.1 where the
connection persists. -/
theorem body_length_ignored : ∃ r,
    Response.parse (bytes "HTTP/1.1 200 OK\r\nContent-Length: 3\r\n\r\n") = some (.ok r) ∧
      SortedMap.find r.headers (bytes "Transfer-Encoding") = none ∧ ContentLength r 3 ∧
      ¬ ∃ b, CreateBuffer r = .ok b ∧ Buffer.Frames kBufferSize 3 b := by
  have hkey : ((Response.parse (bytes "HTTP/1.1 200 OK\r\nContent-Length: 3\r\n\r\n")).bind
      Except.toOption).map (·.headers) = some [(bytes "Content-Length", bytes "3")] := by
    decide +kernel
  obtain ⟨r, hparse, hheaders⟩ := exists_of_accepted hkey
  have hencoding : SortedMap.find r.headers (bytes "Transfer-Encoding") = none := by
    rw [hheaders]
    decide
  have hlength : ContentLength r 3 := by
    refine ⟨bytes "3", [], ?_, ⟨by decide, by decide +kernel, rfl⟩, List.forall_mem_nil _⟩
    rw [hheaders]
    rfl
  have hconnection : r.get "Connection" ≠ bytes "keep-alive" := by
    rw [Response.get, hheaders]
    decide
  refine ⟨r, hparse, hencoding, hlength, ?_⟩
  rw [createBuffer_of_contentLength hencoding hlength, if_neg hconnection]
  rintro ⟨b, hb, hframes⟩
  obtain rfl := Except.ok.inj hb
  exact Buffer.not_frames_noLength (by decide) 3 hframes

end Choice

end Cld
