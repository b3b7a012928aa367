import Cld.Model.Transport

/-!
# Descriptors that are not one's own

`connect` should close what it has opened for the addresses that fail, and leave alone what it has
not opened.

* `Tidy` is what it owes when it leaves, by returning or by an exception.
* `TidyTurn` is one turn of the loop that keeps to its own, and leads from a stream that holds
  nothing to such a stream again.  A run of tidy turns is tidy.
* From a stream that holds nothing every turn is tidy.  Only the first turn can go wrong, when it
  fails before the members are set: the handler then closes what it finds in them.
-/

namespace Cld

open Framework

/-! ## What connecting owes -/

/-- The sockets among what is held. -/
def sockets (held : List Resource) : List ℤ :=
  held.filterMap fun
    | .socket fd => some fd
    | .context _ => none

/-- Nothing is closed or freed that is not held.  On return the stream has the socket of the first
address that works, and no other is open; or `-1`, if none works. -/
def Tidy {σ : Type} (fd : σ → ℤ) (out : σ × List (Deed Resource) × Bool) (first : Option ℕ) :
    Prop :=
  ∃ held, settle [] out.2.1 = some held ∧ (out.2.2 = true →
    sockets held = first.toList.map Nat.cast ∧ fd out.1 = first.elim (-1) Nat.cast)

/-- The socket for this address, if no call for it fails. -/
def Attempt.works (blocking : Bool) (a : Attempt) : Option ℕ :=
  if a.reaches blocking then a.socket else none

/-- No call of `continueConnect` fails. -/
def TlsAttempt.secures (a : TlsAttempt) : Bool :=
  a.method && a.newContext.isSome && a.newSsl && a.handshake != .failed

/-- The socket for this address, if no call for it fails.  Without blocking the handshake is left
for later. -/
def TlsAttempt.works (blocking : Bool) (a : TlsAttempt) : Option ℕ :=
  if a.reaches blocking ∧ (blocking → a.secures) then a.socket else none

/-- The attempt gets to `ctx = SSL_CTX_new(method)`. -/
def TlsAttempt.SetsContext (blocking : Bool) (a : TlsAttempt) : Prop :=
  a.socket ≠ none ∧ a.reaches blocking ∧ blocking ∧ a.method

/-! ## The loop, turn by turn -/

section Loop

variable {σ α : Type} {attempt recover : σ → α → σ × List (Deed Resource) × Bool}
  {clean : σ → Prop} {fd : σ → ℤ} {works : α → Option ℕ} {first : Option ℕ}
  {s s' s'' : σ} {a : α} {address : List α} {opened closed : List (Deed Resource)} {caught : Bool}

lemma connectLoop_of_works (hattempt : attempt s a = (s', opened, true)) :
    connectLoop attempt recover s (a :: address) = (s', opened, true) := by
  rw [connectLoop, hattempt]

lemma connectLoop_of_escapes (hattempt : attempt s a = (s', opened, false))
    (hrecover : recover s' a = (s'', closed, false)) :
    connectLoop attempt recover s (a :: address) = (s'', opened ++ closed, false) := by
  rw [connectLoop, hattempt]
  simp only [hrecover]

lemma connectLoop_of_continues (hattempt : attempt s a = (s', opened, false))
    (hrecover : recover s' a = (s'', closed, true)) :
    connectLoop attempt recover s (a :: address) =
      ((connectLoop attempt recover s'' address).1,
        opened ++ closed ++ (connectLoop attempt recover s'' address).2.1,
        (connectLoop attempt recover s'' address).2.2) := by
  rw [connectLoop, hattempt]
  simp only [hrecover]

/-- A turn that closes what it has opened unless the address works, and nothing else. -/
inductive TidyTurn (attempt recover : σ → α → σ × List (Deed Resource) × Bool)
    (clean : σ → Prop) (fd : σ → ℤ) (works : α → Option ℕ) (s : σ) (a : α) : Prop
  | works {s' : σ} {opened : List (Deed Resource)} {held : List Resource} {n : ℕ}
      (attempt : attempt s a = (s', opened, true))
      (settles : settle [] opened = some held) (sockets : sockets held = [(n : ℤ)])
      (fd : fd s' = n) (works : works a = some n)
  | fails {s' s'' : σ} {opened closed : List (Deed Resource)} {caught : Bool}
      (attempt : attempt s a = (s', opened, false))
      (recover : recover s' a = (s'', closed, caught))
      (settles : settle [] (opened ++ closed) = some [])
      (clean : caught = true → clean s'') (works : works a = none)

/-- The step: after a tidy turn the rest of the loop decides. -/
lemma tidy_cons (hturn : TidyTurn attempt recover clean fd works s a)
    (hrest : ∀ s', clean s' →
      Tidy fd (connectLoop attempt recover s' address) (address.findSome? works)) :
    Tidy fd (connectLoop attempt recover s (a :: address))
      ((a :: address).findSome? works) := by
  cases hturn with
  | works hattempt hsettles hsockets hfd hworks =>
    rw [connectLoop_of_works hattempt, List.findSome?_cons_of_isSome (by simp [hworks]), hworks]
    exact ⟨_, hsettles, fun _ => ⟨hsockets, hfd⟩⟩
  | @fails s' s'' opened closed caught hattempt hrecover hsettles hclean hworks =>
    rw [List.findSome?_cons_of_isNone (by simp [hworks])]
    cases caught with
    | false =>
      rw [connectLoop_of_escapes hattempt hrecover]
      exact ⟨[], hsettles, fun hreturned => absurd hreturned Bool.false_ne_true⟩
    | true =>
      rw [connectLoop_of_continues hattempt hrecover]
      obtain ⟨held, hheld, hreturn⟩ := hrest s'' (hclean rfl)
      refine ⟨held, ?_, hreturn⟩
      rw [settle_append, hsettles, Option.bind_some, hheld]

/-- The run: from a stream that holds nothing, every list of addresses is gone through tidily. -/
lemma tidy_of_clean (hturn : ∀ s a, clean s → TidyTurn attempt recover clean fd works s a)
    (hfd : ∀ s, clean s → fd s = -1) (hclean : clean s) (address : List α) :
    Tidy fd (connectLoop attempt recover s address) (address.findSome? works) := by
  induction address generalizing s with
  | nil => exact ⟨[], settle_nil [], fun _ => ⟨rfl, hfd s hclean⟩⟩
  | cons a address ih => exact tidy_cons (hturn s a hclean) fun s' hclean' => ih hclean'

/-- A first turn that closes something foreign cannot be made up for. -/
lemma not_tidy_of_foreign (hattempt : attempt s a = (s', opened, false))
    (hrecover : recover s' a = (s'', closed, caught))
    (hforeign : settle [] (opened ++ closed) = none) :
    ¬ Tidy fd (connectLoop attempt recover s (a :: address)) first := by
  rintro ⟨held, hheld, -⟩
  cases caught with
  | false =>
    rw [connectLoop_of_escapes hattempt hrecover, hforeign] at hheld
    exact Option.some_ne_none held hheld.symm
  | true =>
    rw [connectLoop_of_continues hattempt hrecover, settle_append, hforeign,
      Option.bind_none] at hheld
    exact Option.some_ne_none held hheld.symm

/-- Without addresses the members stay as they are. -/
lemma tidy_nil_iff : Tidy fd (connectLoop attempt recover s []) none ↔ fd s = -1 := by
  constructor
  · rintro ⟨held, -, hreturn⟩
    exact (hreturn rfl).2
  · intro hfd
    exact ⟨[], settle_nil [], fun _ => ⟨rfl, hfd⟩⟩

end Loop

/-! ## `TcpStream` -/

namespace TcpStream

variable {s : TcpStream} {a : Attempt} {blocking : Bool}

lemma attempt_of_none (hsocket : a.socket = none) : attempt blocking s a = (s, [], false) := by
  rw [attempt, hsocket]

lemma attempt_of_some (blocking : Bool) (s : TcpStream) {n : ℕ} (hsocket : a.socket = some n) :
    attempt blocking s a = ({ fd := n }, [.acquire (.socket n)], a.reaches blocking) := by
  rw [attempt, hsocket]

lemma recover_of_closed (hfd : s.fd = -1) : recover s a = (s, [], true) :=
  if_neg (not_not.2 hfd)

lemma recover_of_open (a : Attempt) (hfd : s.fd ≠ -1) :
    ∃ s', recover s a = (s', [.release (.socket s.fd)], a.close) ∧
      (a.close = true → s'.fd = -1) := by
  rw [recover, if_pos hfd]
  cases hclose : a.close with
  | true => exact ⟨{ fd := -1 }, if_pos rfl, fun _ => rfl⟩
  | false => exact ⟨s, if_neg Bool.false_ne_true, fun h => absurd h Bool.false_ne_true⟩

/-- A turn acts on its own descriptor if there is no other, or as soon as it has one. -/
lemma tidyTurn (hown : s.fd = -1 ∨ a.socket ≠ none) :
    TidyTurn (attempt blocking) recover (fun s => s.fd = -1) TcpStream.fd
      (Attempt.works blocking) s a := by
  cases hsocket : a.socket with
  | none =>
    have hfd : s.fd = -1 := hown.resolve_right (not_not.2 hsocket)
    exact .fails (attempt_of_none hsocket) (recover_of_closed hfd) (settle_nil [])
      (fun _ => hfd) (by simp [Attempt.works, hsocket])
  | some n =>
    have hattempt := attempt_of_some blocking s hsocket
    cases hreaches : a.reaches blocking with
    | true =>
      rw [hreaches] at hattempt
      exact .works hattempt rfl rfl rfl (by rw [Attempt.works, if_pos hreaches, hsocket])
    | false =>
      rw [hreaches] at hattempt
      obtain ⟨s', hrecover, hclosed⟩ :=
        @recover_of_open { fd := n } a (by simp)
      exact .fails hattempt hrecover (by simp [settle]) hclosed
        (by rw [Attempt.works, if_neg (by simp [hreaches])])

/-- `fd` must hold `-1`, or the first address get a socket. -/
lemma tidy_iff (fd : ℤ) (address : List Attempt) (blocking : Bool) :
    Tidy TcpStream.fd (create fd address blocking) (address.findSome? (Attempt.works blocking)) ↔
      fd = -1 ∨ ∃ a ∈ address.head?, a.socket ≠ none := by
  cases address with
  | nil => simpa [create, connect] using tidy_nil_iff
  | cons a address =>
    simp only [List.head?_cons, Option.mem_some_iff, exists_eq_left']
    constructor
    · intro htidy
      by_contra hown
      obtain ⟨hfd, hsocket⟩ := not_or.1 hown
      obtain ⟨s', hrecover, -⟩ := @recover_of_open { fd := fd } a hfd
      refine not_tidy_of_foreign (attempt_of_none (not_not.1 hsocket)) hrecover ?_ htidy
      exact settle_release_foreign List.not_mem_nil
    · intro hown
      exact tidy_cons (tidyTurn hown) fun s' hclean =>
        tidy_of_clean (fun _ _ hfd => tidyTurn (.inl hfd)) (fun _ hfd => hfd) hclean address

end TcpStream

/-! ## `SslStream` -/

namespace SslStream

variable {s : SslStream} {a : TlsAttempt} {blocking : Bool}

/-- Before the handshake. -/
structure Fresh (s : SslStream) : Prop where
  connected : s.connected = false
  ssl : s.ssl = false

/-- It holds nothing. -/
structure Clean (s : SslStream) : Prop extends Fresh s where
  fd : s.fd = -1
  ctx : s.ctx = none

/-- What becomes of a context, if there is one: it is made, -/
def made (ctx : Option ℕ) : List (Deed Resource) :=
  ctx.toList.map fun c => .acquire (.context c)

/-- and freed. -/
def freed (ctx : Option ℕ) : List (Deed Resource) :=
  ctx.toList.map fun c => .release (.context c)

@[simp] lemma made_none : made none = [] := rfl

@[simp] lemma made_some (c : ℕ) : made (some c) = [.acquire (.context c)] := rfl

@[simp] lemma freed_none : freed none = [] := rfl

lemma settle_opened (n : ℤ) (ctx : Option ℕ) :
    settle [] (.acquire (.socket n) :: made ctx) =
      some (ctx.toList.map Resource.context ++ [.socket n]) := by
  cases ctx <;> rfl

lemma sockets_opened (n : ℤ) (ctx : Option ℕ) :
    sockets (ctx.toList.map Resource.context ++ [.socket n]) = [n] := by
  cases ctx <;> rfl

/-- `close` closes what a turn has opened. -/
lemma settle_closed (n : ℤ) (ctx : Option ℕ) :
    settle [] (.acquire (.socket n) :: made ctx ++ (freed ctx ++ [.release (.socket n)])) =
      some [] := by
  cases ctx <;> simp [settle, made, freed]

/-- With a method, `ctx` becomes what `SSL_CTX_new` returns, whatever it was. -/
lemma continueConnect_of_method (hfresh : s.Fresh) (hmethod : a.method = true) :
    ∃ s' r, s.continueConnect a = (s', made a.newContext, r) ∧
      s'.ctx = a.newContext ∧ s'.fd = s.fd ∧ (r = .failed ↔ a.secures = false) ∧
        (r = .failed → s'.connected = false) := by
  rw [continueConnect, if_neg (by simp [hfresh.connected]), if_neg (by simp [hfresh.ssl]),
    if_pos hmethod]
  cases hcontext : a.newContext with
  | none => exact ⟨_, _, rfl, rfl, rfl, by simp [TlsAttempt.secures, hcontext],
      fun _ => hfresh.connected⟩
  | some c =>
    cases hssl : a.newSsl with
    | false => exact ⟨_, _, rfl, rfl, rfl, by simp [TlsAttempt.secures, hssl],
        fun _ => hfresh.connected⟩
    | true =>
      cases hhandshake : a.handshake <;>
        simp [handshake, TlsAttempt.secures, hmethod, hcontext, hssl, hhandshake,
          hfresh.connected]

lemma continueConnect_of_noMethod (hfresh : s.Fresh) (hmethod : a.method = false) :
    s.continueConnect a = (s, [], .failed) := by
  rw [continueConnect, if_neg (by simp [hfresh.connected]), if_neg (by simp [hfresh.ssl]),
    if_neg (by simp [hmethod])]

lemma attempt_of_none (hsocket : a.socket = none) : attempt blocking s a = (s, [], false) := by
  rw [attempt, hsocket]

/-- A turn that fails before `ctx` is set leaves what it found in it. -/
lemma attempt_of_early {n : ℕ} (hfresh : s.Fresh) (hsocket : a.socket = some n)
    (hworks : a.works blocking = none) (hsets : ¬ a.SetsContext blocking) :
    attempt blocking s a = ({ s with fd := n }, [.acquire (.socket n)], false) := by
  rw [attempt, hsocket]
  cases hreaches : a.reaches blocking with
  | false => exact if_neg Bool.false_ne_true
  | true =>
    cases blocking with
    | false => simp [TlsAttempt.works, hreaches, hsocket] at hworks
    | true =>
      have hmethod : a.method = false := by
        simpa [TlsAttempt.SetsContext, hreaches, hsocket] using hsets
      simp [continueConnect_of_noMethod (s := { s with fd := n }) ⟨hfresh.1, hfresh.2⟩ hmethod]

/-- A turn that fails after that has the new context in it, if there is one. -/
lemma attempt_of_setsContext {n : ℕ} (hfresh : s.Fresh) (hsocket : a.socket = some n)
    (hworks : a.works blocking = none) (hsets : a.SetsContext blocking) :
    ∃ s', attempt blocking s a = (s', .acquire (.socket n) :: made a.newContext, false) ∧
      s'.fd = n ∧ s'.ctx = a.newContext ∧ s'.connected = false := by
  obtain ⟨-, hreaches, rfl, hmethod⟩ := hsets
  obtain ⟨s', r, hcontinue, hctx, hfd, hfailed, hconnected⟩ :=
    @continueConnect_of_method { s with fd := n } a ⟨hfresh.1, hfresh.2⟩ hmethod
  have hr : r = .failed :=
    hfailed.2 (by simpa [TlsAttempt.works, hreaches, hsocket] using hworks)
  refine ⟨s', ?_, hfd, hctx, hconnected hr⟩
  rw [attempt, hsocket]
  simp [hreaches, hcontinue, hr]

lemma attempt_of_works {n : ℕ} (hfresh : s.Fresh) (hworks : a.works blocking = some n) :
    ∃ s' ctx, attempt blocking s a = (s', .acquire (.socket n) :: made ctx, true) ∧
      s'.fd = n := by
  obtain ⟨⟨hreaches, hsecures⟩, hsocket⟩ :
      (a.reaches blocking ∧ (blocking → a.secures)) ∧ a.socket = some n := by
    simpa [TlsAttempt.works] using hworks
  rw [attempt, hsocket]
  cases blocking with
  | false => exact ⟨{ s with fd := n }, none, by simp [hreaches], rfl⟩
  | true =>
    have hmethod : a.method = true := by
      have h := hsecures rfl
      simp only [TlsAttempt.secures, Bool.and_eq_true] at h
      exact h.1.1.1
    obtain ⟨s', r, hcontinue, hctx, hfd, hfailed, -⟩ :=
      @continueConnect_of_method { s with fd := n } a ⟨hfresh.1, hfresh.2⟩ hmethod
    have hr : r ≠ .failed := fun hr => by simp [hfailed.1 hr] at hsecures
    refine ⟨s', a.newContext, ?_, hfd⟩
    cases r with
    | failed => exact absurd rfl hr
    | done | again => simp [hreaches, hcontinue]

lemma close_of_closed (a : TlsAttempt) (hfd : s.fd = -1) :
    s.close a = ({ s with ssl := false, ctx := none }, freed s.ctx, true) := by
  simp [close, freed, hfd]

lemma close_of_open (a : TlsAttempt) (hfd : s.fd ≠ -1) :
    ∃ s', s.close a = (s', freed s.ctx ++ [.release (.socket s.fd)], a.close) ∧
      (s.connected = false → a.close = true → s'.Clean) := by
  cases hclose : a.close with
  | true =>
    exact ⟨{ s with ssl := false, ctx := none, fd := -1 }, by simp [close, freed, hfd, hclose],
      fun hconnected _ => ⟨⟨hconnected, rfl⟩, rfl, rfl⟩⟩
  | false =>
    exact ⟨{ s with ssl := false, ctx := none }, by simp [close, freed, hfd, hclose],
      fun _ h => absurd h Bool.false_ne_true⟩

/-- A turn acts on its own if `fd` and `ctx` hold nothing, or as soon as it has set them. -/
lemma tidyTurn (hfresh : s.Fresh) (hfd : s.fd = -1 ∨ a.socket ≠ none)
    (hctx : s.ctx = none ∨ (a.works blocking).isSome ∨ a.SetsContext blocking) :
    TidyTurn (attempt blocking) close Clean SslStream.fd (TlsAttempt.works blocking) s a := by
  cases hsocket : a.socket with
  | none =>
    have hworks : a.works blocking = none := by simp [TlsAttempt.works, hsocket]
    have hsets : ¬ a.SetsContext blocking := fun h => h.1 hsocket
    have hnull : s.ctx = none := hctx.resolve_right (by simp [hworks, hsets])
    have hclosed : s.fd = -1 := hfd.resolve_right (not_not.2 hsocket)
    refine .fails (attempt_of_none hsocket) (close_of_closed a hclosed) ?_ (fun _ => ?_) hworks
    · simp [hnull]
    · exact ⟨⟨hfresh.connected, rfl⟩, hclosed, rfl⟩
  | some n =>
    cases hworks : a.works blocking with
    | some m =>
      obtain ⟨s', ctx, hattempt, hopen⟩ := attempt_of_works hfresh hworks
      exact .works hattempt (settle_opened m ctx) (sockets_opened m ctx) hopen hworks
    | none =>
      by_cases hsets : a.SetsContext blocking
      · obtain ⟨s', hattempt, hopen, hnew, hconnected⟩ :=
          attempt_of_setsContext hfresh hsocket hworks hsets
        obtain ⟨s'', hclose, hclean⟩ := close_of_open a (s := s') (by simp [hopen])
        rw [hnew, hopen] at hclose
        exact .fails hattempt hclose (settle_closed n a.newContext) (hclean hconnected) hworks
      · have hnull : s.ctx = none := hctx.resolve_right (by simp [hworks, hsets])
        obtain ⟨s'', hclose, hclean⟩ := @close_of_open { s with fd := n } a (by simp)
        refine .fails (attempt_of_early hfresh hsocket hworks hsets) hclose ?_
          (hclean hfresh.connected) hworks
        simp [hnull, settle]

/-- `close` begins with what is in `ctx`. -/
lemma close_frees (s : SslStream) (a : TlsAttempt) :
    ∃ s' deeds caught, s.close a = (s', freed s.ctx ++ deeds, caught) := by
  by_cases hfd : s.fd = -1
  · exact ⟨_, [], _, by rw [List.append_nil, close_of_closed a hfd]⟩
  · obtain ⟨s', hclose, -⟩ := close_of_open a hfd
    exact ⟨s', _, _, hclose⟩

lemma settle_freed_foreign {held : List Resource} {ctx : Option ℕ} {c : ℕ} (hctx : ctx = some c)
    (hmem : Resource.context c ∉ held) (deeds : List (Deed Resource)) :
    settle held (freed ctx ++ deeds) = none := by
  rw [hctx]
  exact settle_release_foreign hmem

/-- A turn without a socket closes the `fd` it found. -/
lemma not_tidy_of_fd {address : List TlsAttempt} {first : Option ℕ} (hsocket : a.socket = none)
    (hfd : s.fd ≠ -1) :
    ¬ Tidy SslStream.fd (connectLoop (attempt blocking) close s (a :: address)) first := by
  obtain ⟨s', hclose, -⟩ := close_of_open a hfd
  refine not_tidy_of_foreign (attempt_of_none hsocket) hclose ?_
  cases hctx : s.ctx with
  | none => exact settle_release_foreign List.not_mem_nil
  | some c => exact settle_freed_foreign rfl List.not_mem_nil _

/-- A turn that fails early frees the `ctx` it found. -/
lemma not_tidy_of_ctx {address : List TlsAttempt} {first : Option ℕ} (hfresh : s.Fresh)
    (hctx : s.ctx ≠ none) (hworks : a.works blocking = none) (hsets : ¬ a.SetsContext blocking) :
    ¬ Tidy SslStream.fd (connectLoop (attempt blocking) close s (a :: address)) first := by
  obtain ⟨c, hc⟩ := Option.ne_none_iff_exists'.1 hctx
  cases hsocket : a.socket with
  | none =>
    obtain ⟨s', deeds, caught, hclose⟩ := close_frees s a
    refine not_tidy_of_foreign (attempt_of_none hsocket) hclose ?_
    exact settle_freed_foreign hc List.not_mem_nil deeds
  | some n =>
    obtain ⟨s', deeds, caught, hclose⟩ := close_frees { s with fd := n } a
    refine not_tidy_of_foreign (attempt_of_early hfresh hsocket hworks hsets) hclose ?_
    exact settle_freed_foreign hc (by simp) deeds

/-- Beside what `TcpStream` needs, `ctx` must be null, or the first turn work or set it. -/
lemma tidy_iff (fd : ℤ) (ctx : Option ℕ) (address : List TlsAttempt) (blocking : Bool) :
    Tidy SslStream.fd (create fd ctx address blocking)
        (address.findSome? (TlsAttempt.works blocking)) ↔
      (fd = -1 ∨ ∃ a ∈ address.head?, a.socket ≠ none) ∧
        (ctx = none ∨ ∀ a ∈ address.head?,
          (a.works blocking).isSome ∨ a.SetsContext blocking) := by
  cases address with
  | nil => simpa [create, connect] using tidy_nil_iff
  | cons a address =>
    simp only [List.head?_cons, Option.mem_some_iff, exists_eq_left', forall_eq']
    have hfresh : Fresh { connected := false, ctx := ctx, ssl := false, fd := fd } := ⟨rfl, rfl⟩
    constructor
    · intro htidy
      constructor
      · by_contra hown
        obtain ⟨hfd, hsocket⟩ := not_or.1 hown
        exact not_tidy_of_fd (not_not.1 hsocket) hfd htidy
      · by_contra hown
        obtain ⟨hctx, hturn⟩ := not_or.1 hown
        obtain ⟨hworks, hsets⟩ := not_or.1 hturn
        exact not_tidy_of_ctx hfresh hctx (by simpa using hworks) hsets htidy
    · rintro ⟨hfd, hctx⟩
      exact tidy_cons (tidyTurn hfresh hfd hctx) fun s' hclean =>
        tidy_of_clean (fun _ _ h => tidyTurn h.toFresh (.inl h.fd) (.inl h.ctx))
          (fun _ h => h.fd) hclean address

end SslStream

/-! ## The result -/

/-- **Connecting keeps to its own descriptors** just when the members hold nothing at the start, or
the first attempt sets them before it fails.  For `fd` this takes a socket, for `ctx` the call of
`SSL_CTX_new`, which only a blocking attempt makes; one that works has no need of it. -/
theorem descriptors_tidy_iff (fd : ℤ) (ctx : Option ℕ) (address : List Attempt)
    (tlsAddress : List TlsAttempt) (blocking : Bool) :
    (Tidy TcpStream.fd (TcpStream.create fd address blocking)
        (address.findSome? (Attempt.works blocking)) ↔
      fd = -1 ∨ ∃ a ∈ address.head?, a.socket ≠ none) ∧
    (Tidy SslStream.fd (SslStream.create fd ctx tlsAddress blocking)
        (tlsAddress.findSome? (TlsAttempt.works blocking)) ↔
      (fd = -1 ∨ ∃ a ∈ tlsAddress.head?, a.socket ≠ none) ∧
        (ctx = none ∨ ∀ a ∈ tlsAddress.head?,
          (a.works blocking).isSome ∨ a.SetsContext blocking)) :=
  ⟨TcpStream.tidy_iff fd address blocking, SslStream.tidy_iff fd ctx tlsAddress blocking⟩

/-- The host has no socket for the address, and `fd` happens to be `0`: standard input is closed,
and nothing fails. -/
theorem foreign_descriptor_closed :
    (TcpStream.create 0 [⟨none, true, true, true, true⟩] true).2 =
        ([.release (.socket 0)], true) ∧
      ¬ Tidy TcpStream.fd (TcpStream.create 0 [⟨none, true, true, true, true⟩] true)
        (List.findSome? (Attempt.works true) [⟨none, true, true, true, true⟩]) := by
  refine ⟨rfl, ?_⟩
  rintro ⟨held, hheld, -⟩
  have hforeign : settle [] [Deed.release (Resource.socket 0)] = none :=
    settle_release_foreign List.not_mem_nil
  exact Option.some_ne_none held (hheld.symm.trans hforeign)

end Cld
