import Cld.Model.Address
import Cld.Redirect.CommandLine

/-!
# The lists of addresses

What becomes of the lists that the redirect loop has `getaddrinfo` make, and which of them the
download uses.

* The loop with its lookups makes the steps of the loop without them (`step_loop`).
* `Listed` is the invariant.  All lists are still there, the last of them in `address_info`; and
  once the resource is found, that one is for its URL, and the scheme of the URL has a stream.
* `address_lists`: the download connects to where its resource is.  Of the lists, the destructor
  frees the last, and those of the redirects are lost.
-/

namespace Cld

open Framework

/-- A list for the host of this URL, and its port or else its scheme. -/
structure AddressList.IsFor (list : AddressList) (url : Url) : Prop where
  node : list.node = url.node
  service : list.service = url.service

lemma AddressInfo.create_eq (url : Url) (ptr : ℕ) : AddressInfo.create url (.ok ptr) =
    .ok ({ ai := some ⟨ptr, url.node, url.service⟩ }, [.acquire ⟨ptr, url.node, url.service⟩]) :=
  rfl

/-- Whether the resource has been found. -/
def Phase.isFound : Phase → Bool
  | .found _ _ => true
  | _ => false

lemma Phase.isFound_iff {phase : Phase} :
    phase.isFound = true ↔ ∃ request response, phase = .found request response := by
  cases phase <;> simp [isFound]

namespace Addressing

variable {s s' : Addressing} {round : Round} {rounds : List Round} {k : ℕ}

/-- **The inversion of a round.**  The lookup fails and ends the loop; or there is one list more,
and the connection comes to something. -/
inductive Rounded (s : Addressing) (round : Round) : Addressing → Prop
  | unknown {e : Exn} {loop : Redirection} (hlookup : round.lookup = .error e)
      (hloop : s.loop.step (.failed e) = some loop) : Rounded s round { s with loop := loop }
  | unsupported {ptr : ℕ} {e : Exn} {loop : Redirection} (hlookup : round.lookup = .ok ptr)
      (hscheme : CreateStream s.loop.url.scheme = .error e)
      (hloop : s.loop.step (.failed e) = some loop) :
      Rounded s round
        { loop := loop
          addressInfo := { ai := some ⟨ptr, s.loop.url.node, s.loop.url.service⟩ }
          deeds := s.deeds ++ [.acquire ⟨ptr, s.loop.url.node, s.loop.url.service⟩] }
  | contacted {ptr : ℕ} {kind : StreamKind} {loop : Redirection}
      (hlookup : round.lookup = .ok ptr) (hscheme : CreateStream s.loop.url.scheme = .ok kind)
      (hloop : s.loop.step round.contact = some loop) :
      Rounded s round
        { loop := loop
          addressInfo := { ai := some ⟨ptr, s.loop.url.node, s.loop.url.service⟩ }
          deeds := s.deeds ++ [.acquire ⟨ptr, s.loop.url.node, s.loop.url.service⟩] }

lemma step_cases (hstep : s.step round = some s') : Rounded s round s' := by
  unfold Addressing.step at hstep
  cases hlookup : round.lookup with
  | error e =>
    rw [hlookup] at hstep
    obtain ⟨loop, hloop, rfl⟩ := Option.map_eq_some_iff.1 hstep
    exact .unknown hlookup hloop
  | ok ptr =>
    rw [hlookup, AddressInfo.create_eq] at hstep
    cases hscheme : CreateStream s.loop.url.scheme with
    | error e =>
      rw [hscheme] at hstep
      obtain ⟨loop, hloop, rfl⟩ := Option.map_eq_some_iff.1 hstep
      simp only [AddressInfo.destroy, List.append_nil]
      exact .unsupported hlookup hscheme hloop
    | ok kind =>
      rw [hscheme] at hstep
      obtain ⟨loop, hloop, rfl⟩ := Option.map_eq_some_iff.1 hstep
      simp only [AddressInfo.destroy, List.append_nil]
      exact .contacted hlookup hscheme hloop

/-- The loop without its lookups makes the same step. -/
lemma step_loop (hstep : s.step round = some s') :
    ∃ contact, s.loop.step contact = some s'.loop := by
  cases step_cases hstep with
  | unknown hlookup hloop => exact ⟨_, hloop⟩
  | unsupported hlookup hscheme hloop => exact ⟨_, hloop⟩
  | contacted hlookup hscheme hloop => exact ⟨_, hloop⟩

lemma run_loop (hrun : Transition.run Addressing.step s rounds = some s') :
    ∃ contacts, Transition.run Redirection.step s.loop contacts = some s'.loop := by
  obtain ⟨contacts, loop, hloop, rfl⟩ := Transition.run_simulation
    (R := fun (s : Addressing) loop => s.loop = loop) (fun s loop round s' hR hstep => by
      obtain rfl : s.loop = loop := hR
      obtain ⟨contact, hcontact⟩ := step_loop hstep
      exact ⟨[contact], _, Transition.run_single hcontact, rfl⟩) rfl hrun
  exact ⟨contacts, hloop⟩

/-- **The invariant**, after `k` rounds. -/
structure Listed (k : ℕ) (s : Addressing) : Prop where
  held : ∃ held, settle [] s.deeds = some held ∧ held.head? = s.addressInfo.ai ∧
    ((∀ e, s.loop.phase ≠ .failed e) → held.length = k)
  found : ∀ request response, s.loop.phase = .found request response →
    (∃ list ∈ s.addressInfo.ai, list.IsFor s.loop.url) ∧
      ∃ kind, CreateStream s.loop.url.scheme = .ok kind

lemma listed_init (loop : Redirection) (hphase : loop.phase = .looking) :
    Listed 0 { loop := loop } where
  held := ⟨[], rfl, rfl, fun _ => rfl⟩
  found request response hfound := by cases hphase.symm.trans hfound

/-- A connection that fails ends the loop. -/
lemma phase_of_failed {loop loop' : Redirection} {e : Exn}
    (h : loop.step (.failed e) = some loop') : ∃ e, loop'.phase = .failed e := by
  obtain ⟨-, hfailed | ⟨response, find, url, houtcome, -⟩⟩ := Redirection.step_cases h
  · exact hfailed
  · cases Option.some.inj houtcome

/-- What is found is at the URL of the round. -/
lemma url_of_found {loop loop' : Redirection} {contact : Contact} {request : Request}
    {response : Response} (h : loop.step contact = some loop')
    (hfound : loop'.phase = .found request response) : loop'.url = loop.url := by
  obtain ⟨-, ⟨e, hfailed⟩ | ⟨response', find, url, -, hanalyse, rfl⟩⟩ :=
    Redirection.step_cases h
  · cases hfailed.symm.trans hfound
  · simp only at hfound
    split_ifs at hfound with hfind
    rcases Redirection.analyse_cases hanalyse with ⟨hnot, -, -⟩ | ⟨-, -, rfl⟩
    · cases hnot.symm.trans hfind
    · rfl

/-- **Every round keeps the invariant.** -/
lemma Listed.step (h : Listed k s) (hstep : s.step round = some s') : Listed (k + 1) s' := by
  obtain ⟨held, hsettles, hhead, hlength⟩ := h.held
  have hphase : ∀ {contact loop}, s.loop.step contact = some loop →
      ∀ e, s.loop.phase ≠ .failed e := fun hloop e hfailed => by
    cases (Redirection.step_cases hloop).1.symm.trans hfailed
  have hmore : ∀ list, settle [] (s.deeds ++ [.acquire list]) = some (list :: held) := by
    intro list
    rw [settle_append, hsettles]
    rfl
  cases step_cases hstep with
  | unknown hlookup hloop =>
    obtain ⟨e, hfailed⟩ := phase_of_failed hloop
    exact
      { held := ⟨held, hsettles, hhead, fun hnot => absurd hfailed (hnot e)⟩
        found := fun request response hfound => by cases hfailed.symm.trans hfound }
  | unsupported hlookup hscheme hloop =>
    obtain ⟨e, hfailed⟩ := phase_of_failed hloop
    exact
      { held := ⟨_, hmore _, rfl, fun hnot => absurd hfailed (hnot e)⟩
        found := fun request response hfound => by cases hfailed.symm.trans hfound }
  | contacted hlookup hscheme hloop =>
    refine ⟨⟨_, hmore _, rfl, fun _ => ?_⟩, fun request response hfound => ?_⟩
    · rw [List.length_cons, hlength (hphase hloop)]
    · rw [url_of_found hloop hfound]
      exact ⟨⟨_, rfl, ⟨rfl, rfl⟩⟩, _, hscheme⟩

lemma Listed.run (h : Listed k s) (hrun : Transition.run Addressing.step s rounds = some s') :
    Listed (k + rounds.length) s' := by
  induction rounds generalizing s k with
  | nil =>
    obtain rfl := Option.some.inj hrun
    exact h
  | cons round rounds ih =>
    obtain ⟨t, hstep, hrest⟩ := (Transition.run_cons_iff Addressing.step).1 hrun
    rw [List.length_cons, Nat.add_comm rounds.length, ← Nat.add_assoc]
    exact ih (h.step hstep) hrest

/-- **Where the download connects, and what the redirects lose.**  In every run that finds the
resource, `address_info` holds a list that was made for the URL of the resource that is asked for
and has not been freed, there is a stream for the scheme, and the server is told the host that it
was looked up by, unless the command line says another.  When `Cld` returns it frees this list, and
nothing has been freed before; one list is lost for each redirect. -/
theorem address_lists {args : List CommandOption} {options : Options} {url : Url}
    {request : Request} {response : Response}
    (hargs : Options.readOptions {} args = .ok (some options))
    (hrun : Transition.run Addressing.step { loop := { options := options, url := url } } rounds =
      some s)
    (hfound : s.loop.phase = .found request response) :
    (∃ kind, CreateStream s.loop.url.scheme = .ok kind) ∧
      ∃ list lost, s.addressInfo.ai = some list ∧ list.IsFor s.loop.url ∧
        request.resource = s.loop.url.resource ∧
        SortedMap.find request.headers (bytes "Host") = fieldFor args list.node (bytes "Host") ∧
        settle [] s.deeds = some (list :: lost) ∧
        settle [] (s.deeds ++ s.addressInfo.destroy) = some lost ∧
        lost.length + 1 = rounds.length := by
  have hlisted := (listed_init { options := options, url := url } rfl).run hrun
  obtain ⟨held, hsettles, hhead, hlength⟩ := hlisted.held
  obtain ⟨⟨list, hlist, hfor⟩, hkind⟩ := hlisted.found request response hfound
  have hlive : ∀ e, s.loop.phase ≠ .failed e := fun e hfailed => by
    cases hfailed.symm.trans hfound
  have hcount : held.length = rounds.length := by
    rw [hlength hlive, Nat.zero_add]
  have hai : s.addressInfo.ai = some list := hlist
  rw [hai] at hhead
  obtain ⟨lost, rfl⟩ := List.head?_eq_some_iff.1 hhead
  -- what is asked for, of the loop alone
  obtain ⟨contacts, hloop⟩ := run_loop hrun
  rcases (Redirection.reaching_start url hargs).run hloop with ⟨e, hfailed⟩ | hreaching
  · exact absurd hfailed (hlive e)
  obtain ⟨hresource, hheaders⟩ := hreaching.found request response hfound
  have hhost := hheaders (bytes "Host") (by decide) (by decide)
  refine ⟨hkind, list, lost, hai, hfor, hresource, ?_, hsettles, ?_, hcount⟩
  · rw [hfor.node]
    exact hhost
  · rw [settle_append, hsettles, Option.bind_some, AddressInfo.destroy, hai]
    simp only [settle_release List.mem_cons_self, List.erase_cons_head, settle_nil]

/-- A redirect from `http://a` to the port 8443 of `b`. -/
def toOtherPort : List Round :=
  [⟨.ok 1, Redirection.answer "HTTP/1.1 302 Found\r\nLocation: https://b:8443/c\r\n\r\n"⟩,
    ⟨.ok 2, Redirection.answer "HTTP/1.1 200 OK\r\n\r\n"⟩]

/-- The list of `b` is freed in the end, and that of `a` is lost. -/
theorem address_lists_lost : ∃ s list lost,
    Transition.run Addressing.step
      { loop := { options := {}, url := { scheme := bytes "http", host := bytes "a" } } }
      toOtherPort = some s ∧
    s.addressInfo.ai = some list ∧ list.service = bytes "8443" ∧
    settle [] (s.deeds ++ s.addressInfo.destroy) = some lost ∧ lost.length = 1 := by
  have hkey : (Transition.run Addressing.step
      { loop := { options := {}, url := { scheme := bytes "http", host := bytes "a" } } }
      toOtherPort).map (fun s => (s.loop.phase.isFound, s.loop.url.service)) =
        some (true, bytes "8443") := by
    decide +kernel
  obtain ⟨s, hrun, hval⟩ := Option.map_eq_some_iff.1 hkey
  obtain ⟨hfound, hservice⟩ := Prod.mk.inj hval
  obtain ⟨request, response, hphase⟩ := Phase.isFound_iff.1 hfound
  obtain ⟨-, list, lost, hai, hfor, -, -, -, hfreed, hlost⟩ :=
    @address_lists _ _ [] {} _ _ _ rfl hrun hphase
  exact ⟨s, list, lost, hrun, hai, hfor.service.trans hservice, hfreed, Nat.succ.inj hlost⟩

end Addressing

end Cld
