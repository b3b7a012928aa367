import Mathlib.Data.List.TakeWhile
import Cld.Model.Program
import Cld.Redirect.Rounds

/-!
# Where the file is saved

The path of the output is set by the user, or after the resource, or by `mkstemp`; a redirect comes
with a new URL, and the loop looks again each time.

* `firstName` is the purpose: the first name that is not empty.  `firstName_named` is one round of
  the loop.
* `output_named`: the path of a download, in every run, is the first name of the user's, of the last
  components of the URLs in the order in which they are requested, and of `mkstemp`'s.  Later
  redirects do not rename it, and a name that is not the user's has no `/` in it, so that no server
  chooses a directory.
-/

namespace Cld

open Framework

/-- The first name that is not empty; the empty one if there is none. -/
def firstName (names : List Bytes) : Bytes := (names.find? (· ≠ [])).getD []

lemma firstName_cons (name : Bytes) (names : List Bytes) :
    firstName (name :: names) = if name = [] then firstName names else name := by
  unfold firstName
  split_ifs with hname
  · rw [List.find?_cons_of_neg (by simp [hname])]
  · rw [List.find?_cons_of_pos (by simp [hname])]
    rfl

lemma firstName_mem {names : List Bytes} (h : firstName names ≠ []) : firstName names ∈ names := by
  unfold firstName at h ⊢
  cases hfind : names.find? (· ≠ []) with
  | none =>
    rw [hfind] at h
    exact absurd rfl h
  | some name => exact List.mem_of_find?_eq_some hfind

/-- A path has no `/` behind its last one. -/
lemma slash_notMem_lastComponent (path : Bytes) : 47 ∉ lastComponent path := by
  unfold lastComponent
  rw [List.mem_reverse]
  intro hmem
  have hne := List.mem_takeWhile_imp hmem
  simp at hne

lemma Options.named_outputPath (o : Options) (url : Url) :
    (o.named url).outputPath =
      if o.outputPath = [] then lastComponent url.path else o.outputPath := by
  unfold named
  by_cases hpath : o.outputPath = []
  · rw [if_pos hpath]
    by_cases hlast : lastComponent url.path = []
    · rw [if_neg fun h => h.2 hlast, hpath, hlast]
    · rw [if_pos ⟨hpath, hlast⟩]
  · rw [if_neg hpath, if_neg fun h => hpath h.1]

lemma Options.withCookie_outputPath (o : Options) (response : Response) :
    (o.withCookie response).outputPath = o.outputPath := by
  unfold withCookie
  split_ifs <;> rfl

/-- **One round of the loop**: the URL may give the name, if there is none yet. -/
lemma firstName_named (o : Options) (url : Url) (names : List Bytes) :
    firstName ((o.named url).outputPath :: names) =
      firstName (o.outputPath :: lastComponent url.path :: names) := by
  rw [o.named_outputPath, firstName_cons o.outputPath]
  split_ifs with hpath
  · rfl
  · rw [firstName_cons, if_neg hpath]

namespace Program

variable {s s' : Program} {r : Redirection} {event : Event} {events : List Event}
  {options : Options} {url : Url} {output : Bytes}

/-- The path of the output, once there is one. -/
def output? (s : Program) : Option Bytes :=
  match s with
  | .single output _ => some output
  | .multi output _ _ => some output
  | .finished output _ => some output
  | _ => none

/-- The name that a step has for the output. -/
def offered (s : Program) (event : Event) : Option Bytes :=
  match s, event with
  | .looking r, .contact _ => some (lastComponent r.url.path)
  | .looking _, .opening o => some o.temporary
  | _, _ => none

/-- The names that a run has for the output: those of the URLs it requests, and `mkstemp`'s. -/
def names (s : Program) (events : List Event) : List Bytes :=
  Transition.shown step offered s events

/-! ## Behind the redirect loop -/

/-- The loops keep the path. -/
lemma step_settled (h : ∀ r, s ≠ .looking r) (hstep : s.step event = some s') :
    (∀ r, s' ≠ .looking r) ∧ (s'.output? = none ∨ s'.output? = s.output?) := by
  unfold step at hstep
  split at hstep
  · next r contact => exact absurd rfl (h r)
  · next r o => exact absurd rfl (h r)
  · next output loop label =>
    obtain ⟨loop', -, rfl⟩ := Option.map_eq_some_iff.1 hstep
    unfold ofSingle
    split
    · exact ⟨fun _ => Program.noConfusion, Or.inr rfl⟩
    · exact ⟨fun _ => Program.noConfusion, Or.inl rfl⟩
    · exact ⟨fun _ => Program.noConfusion, Or.inr rfl⟩
  · next output cfg loop label =>
    obtain ⟨loop', -, rfl⟩ := Option.map_eq_some_iff.1 hstep
    unfold ofMulti
    split
    · exact ⟨fun _ => Program.noConfusion, Or.inr rfl⟩
    · exact ⟨fun _ => Program.noConfusion, Or.inl rfl⟩
    · exact ⟨fun _ => Program.noConfusion, Or.inr rfl⟩
  · cases hstep

lemma run_settled (h : ∀ r, s ≠ .looking r)
    (hrun : Transition.run step s events = some s') :
    names s events = [] ∧ (s'.output? = none ∨ s'.output? = s.output?) := by
  induction events generalizing s with
  | nil =>
    obtain rfl : s = s' := by simpa using hrun
    exact ⟨rfl, Or.inr rfl⟩
  | cons event events ih =>
    obtain ⟨s₁, hone, hrest⟩ := (Transition.run_cons_iff step).1 hrun
    obtain ⟨hsettled, hkept⟩ := step_settled h hone
    obtain ⟨hnames, hlater⟩ := ih hsettled hrest
    have hoffered : offered s event = none := by
      unfold offered
      split
      · next r contact => exact absurd rfl (h r)
      · next r o => exact absurd rfl (h r)
      · rfl
    refine ⟨?_, ?_⟩
    · rw [names, Transition.shown_cons hone, hoffered]
      exact hnames
    · rcases hlater with hnone | hsame
      · exact Or.inl hnone
      · rw [hsame]
        exact hkept

/-! ## The redirect loop -/

/-- The path with which the download begins. -/
lemma output?_begin (options : Options) (request : Request) (response : Response) (o : Opening) :
    (∀ r, begin options request response o ≠ .looking r) ∧
      ((begin options request response o).output? = none ∨
        (begin options request response o).output? =
            some (firstName [options.outputPath, o.temporary]) ∧
          firstName [options.outputPath, o.temporary] ≠ []) := by
  have henter : ∀ (output : Bytes) (selected : Selected),
      (∀ r, enter output o selected ≠ .looking r) ∧
        ((enter output o selected).output? = none ∨
          (enter output o selected).output? = some output) := by
    intro output selected
    unfold enter
    cases o.epoll with
    | some e => exact ⟨fun _ => Program.noConfusion, Or.inl rfl⟩
    | none =>
      cases selected with
      | single request =>
        cases o.connection with
        | error e => exact ⟨fun _ => Program.noConfusion, Or.inl rfl⟩
        | ok stream => exact ⟨fun _ => Program.noConfusion, Or.inr rfl⟩
      | multi cfg => exact ⟨fun _ => Program.noConfusion, Or.inr rfl⟩
  rw [firstName_cons, firstName_cons]
  unfold begin openOutput
  by_cases hpath : options.outputPath = []
  · rw [if_pos hpath, if_pos hpath]
    unfold Options.setOutputPath
    by_cases htemp : o.temporary = []
    · rw [if_neg (not_not.2 htemp)]
      exact ⟨fun _ => Program.noConfusion, Or.inl rfl⟩
    · rw [if_pos htemp, if_neg htemp]
      obtain ⟨hlooking, houtput⟩ := henter o.temporary
        (selectDownload { options with outputPath := o.temporary } request response)
      exact ⟨hlooking, houtput.imp_right fun h => ⟨h, htemp⟩⟩
  · rw [if_neg hpath, if_neg hpath]
    cases o.refused with
    | some e => exact ⟨fun _ => Program.noConfusion, Or.inl rfl⟩
    | none =>
      obtain ⟨hlooking, houtput⟩ :=
        henter options.outputPath (selectDownload options request response)
      exact ⟨hlooking, houtput.imp_right fun h => ⟨h, hpath⟩⟩

/-- A round of the loop, or its end. -/
lemma step_looking (hstep : (looking r).step event = some s') :
    (∃ contact, event = .contact contact ∧ ((∃ fault, s' = .failed fault) ∨
      ∃ r', s' = .looking r' ∧ r'.options.outputPath = (r.options.named r.url).outputPath)) ∨
    ∃ o request response, event = .opening o ∧ r.phase = .found request response ∧
      s' = begin r.options request response o := by
  unfold step at hstep
  split at hstep
  · next r₀ contact hlooking =>
    obtain rfl := Program.looking.inj hlooking
    obtain ⟨r', hround, rfl⟩ := Option.map_eq_some_iff.1 hstep
    refine Or.inl ⟨contact, rfl, ?_⟩
    unfold ofRedirection
    obtain ⟨-, ⟨e, hfailed⟩ | ⟨response, find, url, -, -, rfl⟩⟩ := Redirection.step_cases hround
    · rw [hfailed]
      exact Or.inl ⟨.thrown e, rfl⟩
    · right
      cases find with
      | true => exact ⟨_, rfl, Options.withCookie_outputPath _ response⟩
      | false => exact ⟨_, rfl, Options.withCookie_outputPath _ response⟩
  · next r₀ o hlooking =>
    obtain rfl := Program.looking.inj hlooking
    split at hstep
    · next request response hphase =>
      obtain rfl := Option.some.inj hstep
      exact Or.inr ⟨o, request, response, rfl, hphase, rfl⟩
    · cases hstep
  · next hlooking => cases hlooking
  · next hlooking => cases hlooking
  · cases hstep

/-- From a round of the loop to the path of the download. -/
lemma run_looking (hrun : Transition.run step (looking r) events = some s)
    (houtput : s.output? = some output) :
    output = firstName (r.options.outputPath :: names (looking r) events) ∧ output ≠ [] := by
  induction events generalizing r with
  | nil =>
    obtain rfl : looking r = s := by simpa using hrun
    cases houtput
  | cons event events ih =>
    obtain ⟨s₁, hone, hrest⟩ := (Transition.run_cons_iff step).1 hrun
    have hnames : names (looking r) (event :: events) =
        (offered (looking r) event).toList ++ names s₁ events := Transition.shown_cons hone
    rw [hnames]
    rcases step_looking hone with
      ⟨contact, rfl, ⟨fault, rfl⟩ | ⟨r', rfl, hpath⟩⟩ | ⟨o, request, response, rfl, hphase, rfl⟩
    · obtain ⟨-, hnone | hsame⟩ := run_settled (fun _ => Program.noConfusion) hrest
      · exact absurd (hnone.symm.trans houtput) (Option.some_ne_none _).symm
      · exact absurd (hsame.symm.trans houtput) (Option.some_ne_none _).symm
    · obtain ⟨hfirst, hne⟩ := ih hrest
      rw [hpath, firstName_named] at hfirst
      exact ⟨hfirst, hne⟩
    · obtain ⟨hsettled, hbegin⟩ := output?_begin r.options request response o
      obtain ⟨hnone, hlater⟩ := run_settled hsettled hrest
      have hsame : (begin r.options request response o).output? = some output := by
        rcases hlater with hlost | hkept
        · exact absurd (hlost.symm.trans houtput) (Option.some_ne_none _).symm
        · exact hkept.symm.trans houtput
      rw [hnone, List.append_nil]
      rcases hbegin with hlost | ⟨hpath, hne⟩
      · exact absurd (hlost.symm.trans hsame) (Option.some_ne_none _).symm
      · obtain rfl := Option.some.inj (hpath.symm.trans hsame)
        exact ⟨rfl, hne⟩

/-- The names offered on the way to a download are last components, but for that of `mkstemp`. -/
lemma mem_names {name : Bytes} (hname : name ∈ names s events) :
    47 ∉ name ∨ ∃ o, .opening o ∈ events ∧ name = o.temporary := by
  induction events generalizing s with
  | nil => exact absurd hname List.not_mem_nil
  | cons event events ih =>
    rcases List.mem_append.1 hname with hfirst | hrest
    · rw [Option.mem_toList] at hfirst
      unfold offered at hfirst
      split at hfirst
      · next r contact =>
        obtain rfl := Option.some.inj hfirst
        exact Or.inl (slash_notMem_lastComponent r.url.path)
      · next r o =>
        obtain rfl := Option.some.inj hfirst
        exact Or.inr ⟨o, List.mem_cons_self, rfl⟩
      · cases hfirst
    · cases hone : s.step event with
      | none =>
        rw [hone] at hrest
        exact absurd hrest List.not_mem_nil
      | some s₁ =>
        rw [hone] at hrest
        rcases ih hrest with hslash | ⟨o, ho, rfl⟩
        · exact Or.inl hslash
        · exact Or.inr ⟨o, List.mem_cons_of_mem _ ho, rfl⟩

/-- **The path of the output.**  In every run the download has the first of these names that is not
empty: the user's, the last components of the URLs in the order in which they are requested, and
`mkstemp`'s.  A name that is not the user's and not `mkstemp`'s has no `/` in it. -/
theorem output_named (hrun : Transition.run step (start options url) events = some s)
    (houtput : s.output? = some output) :
    output = firstName (options.outputPath :: names (start options url) events) ∧ output ≠ [] ∧
      (options.outputPath = [] →
        47 ∉ output ∨ ∃ o, .opening o ∈ events ∧ output = o.temporary) := by
  obtain ⟨hfirst, hne⟩ := run_looking hrun houtput
  refine ⟨hfirst, hne, fun hpath => ?_⟩
  have hfirst' : output = firstName (names (start options url) events) := by
    rw [hfirst, firstName_cons, if_pos hpath]
    rfl
  rw [hfirst']
  exact mem_names (firstName_mem (hfirst' ▸ hne))

/-- A redirect from `/a` to `/b`, and the beginning of a download of 5 bytes. -/
def renamed : List Event :=
  [.contact (.answered ((bytes "HTTP/1.1 302 Found\r\nLocation: /b\r\n\r\n").map (.byte · false))),
    .contact (.answered ((bytes "HTTP/1.1 200 OK\r\nContent-Length: 5\r\n\r\n").map
      (.byte · false))),
    .opening { temporary := bytes "cld_0", connection := .ok ⟨[], []⟩, node := 0, now := 0 }]

/-- The file is named after the first URL. -/
theorem output_named_first : ∃ s,
    Transition.run step (start {} { scheme := bytes "http", host := bytes "h", path := bytes "/a" })
      renamed = some s ∧ s.output? = some (bytes "a") ∧
      (47 ∉ bytes "a" ∨ ∃ o, .opening o ∈ renamed ∧ bytes "a" = o.temporary) := by
  have hkey : (Transition.run step
      (start {} { scheme := bytes "http", host := bytes "h", path := bytes "/a" }) renamed).map
        output? = some (some (bytes "a")) := by decide +kernel
  obtain ⟨s, hrun, houtput⟩ := Option.map_eq_some_iff.1 hkey
  obtain ⟨-, -, hslash⟩ := output_named hrun houtput
  exact ⟨s, hrun, houtput, hslash rfl⟩

end Program

end Cld
