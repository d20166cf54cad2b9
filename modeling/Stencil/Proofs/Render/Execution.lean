import Stencil.Proofs.Render.Steps

/-!
The course of a rendering.

`Executes` follows a rendering through its includes, with the depth counted from the top: each file
is one deeper than the one that includes it, and includes beside each other are equally deep. What
happens on the way is written down as a list of events. A derivation is finite, so what is executed
comes to an end; without a limit a file that includes itself has no derivation at all
(`not_executes_of_includes_itself`).

There is one course at most (`Executes.unique`), and with a limit there is one, which ends with the
result that the loaders give (`executes_loader`). Two limits that treat the depths on the way alike
give the same course (`Executes.of_refusal_eq`), and so do two sources of files that agree on what
is read (`Executes.of_files_eq`). What goes wrong is the first failure among the events
(`Executes.findSome?_failure`).
-/

namespace Stencil

/-- How deep includes may nest, and what is answered to those that are deeper. -/
structure Limit where
  depth : Nat
  overrun : Stop

/-- The error for an include that would be so deep, if the limit forbids it. -/
def Limit.refusal? (limit? : Option Limit) (depth : Nat) : Option Stop :=
  match limit? with
  | none => none
  | some limit => if limit.depth < depth then some limit.overrun else none

theorem Limit.refusal?_eq_none_iff {limit : Limit} {depth : Nat} :
    Limit.refusal? (some limit) depth = none ↔ depth ≤ limit.depth := by
  simp [Limit.refusal?]

theorem Limit.refusal?_eq_some_iff {limit : Limit} {depth : Nat} {e : Stop} :
    Limit.refusal? (some limit) depth = some e ↔ limit.depth < depth ∧ limit.overrun = e := by
  simp [Limit.refusal?]

inductive Event where
  /-- An include with a target is met, which would be so deep. -/
  | reached (depth : Nat) (path : Path)
  /-- A file is read, so deep. -/
  | read (depth : Nat) (path : Path)

/-- What an include comes to before its file is rendered. -/
inductive Opening where
  /-- It has no target. -/
  | idle
  | stopped (events : List Event) (e : Stop)
  | opened (path : Path) (source : String) (c : Context)

/-- An include of a file that would be `depth` deep. The limit comes first: a file that is too deep
is not looked at. -/
def opening (files : FileSource) (limit? : Option Limit) (depth : Nat) (base : Path)
    (args : String) (c : Context) : Opening :=
  match words args.toList with
  | [] => .idle
  | target :: params =>
    let path := targetPath base target
    match Limit.refusal? limit? depth with
    | some e => .stopped [.reached depth path] e
    | none =>
      match files path with
      | .error fault =>
        .stopped [.reached depth path, .read depth path] (.failed (.unreadable path fault))
      | .ok source => .opened path source (overlay c params)

/-- The steps of a file that is `depth` deep, with what happens and what comes out of it. -/
inductive Executes (files : FileSource) (limit? : Option Limit) :
    Nat → Path → List Step → List Event → Except Stop String → Prop
  | done {depth : Nat} {base : Path} : Executes files limit? depth base [] [] (.ok "")
  | write {depth : Nat} {base : Path} {s : String} {rest : List Step} {events : List Event}
      {result : Except Stop String} :
      Executes files limit? depth base rest events result →
      Executes files limit? depth base (.write s :: rest) events (result.map (s ++ ·))
  | idle {depth : Nat} {base : Path} {args : String} {c : Context} {rest : List Step}
      {events : List Event} {result : Except Stop String} :
      opening files limit? (depth + 1) base args c = .idle →
      Executes files limit? depth base rest events result →
      Executes files limit? depth base (.visit args c :: rest) events result
  | stopped {depth : Nat} {base : Path} {args : String} {c : Context} {rest : List Step}
      {events : List Event} {e : Stop} :
      opening files limit? (depth + 1) base args c = .stopped events e →
      Executes files limit? depth base (.visit args c :: rest) events (.error e)
  /-- Something goes wrong inside the included file. -/
  | failed {depth : Nat} {base : Path} {args : String} {c : Context} {rest : List Step}
      {path : Path} {source : String} {d : Context} {inner : List Event} {e : Stop} :
      opening files limit? (depth + 1) base args c = .opened path source d →
      Executes files limit? (depth + 1) path.directory (sourceSteps source.toList d) inner
        (.error e) →
      Executes files limit? depth base (.visit args c :: rest)
        (.reached (depth + 1) path :: .read (depth + 1) path :: inner) (.error e)
  | included {depth : Nat} {base : Path} {args : String} {c : Context} {rest : List Step}
      {path : Path} {source : String} {d : Context} {inner later : List Event} {s : String}
      {result : Except Stop String} :
      opening files limit? (depth + 1) base args c = .opened path source d →
      Executes files limit? (depth + 1) path.directory (sourceSteps source.toList d) inner
        (.ok s) →
      Executes files limit? depth base rest later result →
      Executes files limit? depth base (.visit args c :: rest)
        (.reached (depth + 1) path :: .read (depth + 1) path :: (inner ++ later))
        (result.map (s ++ ·))

variable {files : FileSource} {limit? : Option Limit}

/-! ## One course -/

theorem Executes.unique {depth : Nat} {base : Path} {steps : List Step}
    {events events' : List Event} {result result' : Except Stop String}
    (h : Executes files limit? depth base steps events result)
    (h' : Executes files limit? depth base steps events' result') :
    events = events' ∧ result = result' := by
  induction h generalizing events' result' with
  | done =>
    cases h'
    exact ⟨rfl, rfl⟩
  | write _ ih =>
    cases h' with
    | write h' =>
      obtain ⟨rfl, rfl⟩ := ih h'
      exact ⟨rfl, rfl⟩
  | idle ho _ ih =>
    cases h' with
    | idle _ h' => exact ih h'
    | stopped ho' => cases ho.symm.trans ho'
    | failed ho' => cases ho.symm.trans ho'
    | included ho' => cases ho.symm.trans ho'
  | stopped ho =>
    cases h' with
    | idle ho' => cases ho.symm.trans ho'
    | stopped ho' =>
      cases ho.symm.trans ho'
      exact ⟨rfl, rfl⟩
    | failed ho' => cases ho.symm.trans ho'
    | included ho' => cases ho.symm.trans ho'
  | failed ho _ ih =>
    cases h' with
    | idle ho' => cases ho.symm.trans ho'
    | stopped ho' => cases ho.symm.trans ho'
    | failed ho' h' =>
      cases ho.symm.trans ho'
      obtain ⟨rfl, heq⟩ := ih h'
      exact ⟨rfl, heq⟩
    | included ho' h' =>
      cases ho.symm.trans ho'
      cases (ih h').2
  | included ho _ _ ih ihRest =>
    cases h' with
    | idle ho' => cases ho.symm.trans ho'
    | stopped ho' => cases ho.symm.trans ho'
    | failed ho' h' =>
      cases ho.symm.trans ho'
      cases (ih h').2
    | included ho' h' hrest =>
      cases ho.symm.trans ho'
      obtain ⟨rfl, heq⟩ := ih h'
      obtain ⟨rfl, rfl⟩ := ihRest hrest
      cases heq
      exact ⟨rfl, rfl⟩

/-- Without a limit there is no course through a file that includes itself. -/
theorem not_executes_of_includes_itself {depth : Nat} {base : Path} {c : Context}
    {events : List Event} {result : Except Stop String} :
    ¬ Executes (fun _ => .ok "include a") none depth base (sourceSteps "include a".toList c) events
      result := by
  have hsteps : ∀ c, sourceSteps "include a".toList c = [.visit "a" c] := by
    intro c
    have hparse : Forest.parse "include a".toList = [.mk 0 (.directive .includeFile "a") []] := rfl
    rw [sourceSteps, hparse]
    simp only [nodeSteps]
    rfl
  have hopening : ∀ depth base c, opening (fun _ => .ok "include a") none depth base "a" c =
      .opened (targetPath base ['a']) "include a" c := fun _ _ _ => rfl
  intro h
  rw [hsteps] at h
  generalize hsource : [Step.visit "a" c] = steps at h
  induction h generalizing c with
  | done => cases hsource
  | write => cases hsource
  | idle ho =>
    cases hsource
    cases (hopening _ _ _).symm.trans ho
  | stopped ho =>
    cases hsource
    cases (hopening _ _ _).symm.trans ho
  | failed ho _ ih =>
    cases hsource
    cases (hopening _ _ _).symm.trans ho
    exact ih (hsteps _).symm
  | included ho _ _ ih =>
    cases hsource
    cases (hopening _ _ _).symm.trans ho
    exact ih (hsteps _).symm

/-! ## What happens on the way -/

theorem opening_eq_idle_iff {depth : Nat} {base : Path} {args : String} {c : Context} :
    opening files limit? depth base args c = .idle ↔ words args.toList = [] := by
  unfold opening
  cases words args.toList with
  | nil => simp
  | cons target params =>
    cases Limit.refusal? limit? depth with
    | some e => simp
    | none => cases h : files (targetPath base target) <;> simp [h]

/-- What keeps an include from being followed is the limit or the file. -/
theorem opening_eq_stopped {depth : Nat} {base : Path} {args : String} {c : Context}
    {events : List Event} {e : Stop}
    (h : opening files limit? depth base args c = .stopped events e) :
    ∃ path, (Limit.refusal? limit? depth = some e ∧ events = [.reached depth path]) ∨
      ∃ fault, Limit.refusal? limit? depth = none ∧ files path = .error fault ∧
        e = .failed (.unreadable path fault) ∧ events = [.reached depth path, .read depth path] := by
  unfold opening at h
  cases hw : words args.toList with
  | nil => simp [hw] at h
  | cons target params =>
    refine ⟨targetPath base target, ?_⟩
    rw [hw] at h
    cases hr : Limit.refusal? limit? depth with
    | some e' =>
      simp only [hr] at h
      cases h
      exact Or.inl ⟨rfl, rfl⟩
    | none =>
      cases hf : files (targetPath base target) with
      | ok source => simp [hr, hf] at h
      | error fault =>
        simp only [hr, hf] at h
        cases h
        exact Or.inr ⟨fault, rfl, rfl, rfl, rfl⟩

theorem opening_eq_opened {depth : Nat} {base : Path} {args : String} {c : Context} {path : Path}
    {source : String} {d : Context}
    (h : opening files limit? depth base args c = .opened path source d) :
    Limit.refusal? limit? depth = none ∧ files path = .ok source := by
  unfold opening at h
  cases hw : words args.toList with
  | nil => simp [hw] at h
  | cons target params =>
    rw [hw] at h
    cases hr : Limit.refusal? limit? depth with
    | some e' => simp [hr] at h
    | none =>
      cases hf : files (targetPath base target) with
      | error fault => simp [hr, hf] at h
      | ok source' =>
        simp only [hr, hf] at h
        cases h
        exact ⟨rfl, hf⟩

theorem opening_of_refusal_eq {limit?' : Option Limit} {depth : Nat}
    (h : Limit.refusal? limit?' depth = Limit.refusal? limit? depth) (base : Path) (args : String)
    (c : Context) :
    opening files limit?' depth base args c = opening files limit? depth base args c := by
  simp only [opening, h]

/-- The events before an included file is rendered. -/
def Opening.events (depth : Nat) : Opening → List Event
  | idle => []
  | stopped events _ => events
  | opened path _ _ => [.reached depth path, .read depth path]

theorem opening_of_files_eq {files' : FileSource} {depth : Nat} {base : Path} {args : String}
    {c : Context}
    (h : ∀ path, .read depth path ∈ (opening files limit? depth base args c).events depth →
      files' path = files path) :
    opening files' limit? depth base args c = opening files limit? depth base args c := by
  unfold opening at h ⊢
  generalize words args.toList = ws at h ⊢
  cases ws with
  | nil => rfl
  | cons target params =>
    cases hr : Limit.refusal? limit? depth with
    | some e => rfl
    | none =>
      have hread : files' (targetPath base target) = files (targetPath base target) := by
        refine h _ ?_
        cases hf : files (targetPath base target) <;> simp [hr, hf, Opening.events]
      simp only [hread]

/-- The course is the same under a limit that treats the depths on the way alike. -/
theorem Executes.of_refusal_eq {limit?' : Option Limit} {depth : Nat} {base : Path}
    {steps : List Step} {events : List Event} {result : Except Stop String}
    (h : Executes files limit? depth base steps events result)
    (hsame : ∀ d path, .reached d path ∈ events →
      Limit.refusal? limit?' d = Limit.refusal? limit? d) :
    Executes files limit?' depth base steps events result := by
  induction h with
  | done => exact .done
  | write _ ih => exact .write (ih hsame)
  | idle ho _ ih =>
    exact .idle (opening_eq_idle_iff.mpr (opening_eq_idle_iff.mp ho)) (ih hsame)
  | stopped ho =>
    obtain ⟨path, hevents⟩ := opening_eq_stopped ho
    refine .stopped ((opening_of_refusal_eq (hsame _ path ?_) _ _ _).trans ho)
    rcases hevents with ⟨_, rfl⟩ | ⟨_, _, _, _, rfl⟩
    · exact List.mem_cons_self ..
    · exact List.mem_cons_self ..
  | failed ho _ ih =>
    have hhere := hsame _ _ (List.mem_cons_self ..)
    exact .failed ((opening_of_refusal_eq hhere _ _ _).trans ho)
      (ih fun d path hd => hsame d path (by simp [hd]))
  | included ho _ _ ih ihRest =>
    have hhere := hsame _ _ (List.mem_cons_self ..)
    exact .included ((opening_of_refusal_eq hhere _ _ _).trans ho)
      (ih fun d path hd => hsame d path (by simp [hd]))
      (ihRest fun d path hd => hsame d path (by simp [hd]))

/-- The course depends on the files that are read and on no others. -/
theorem Executes.of_files_eq {files' : FileSource} {depth : Nat} {base : Path}
    {steps : List Step} {events : List Event} {result : Except Stop String}
    (h : Executes files limit? depth base steps events result)
    (hsame : ∀ d path, .read d path ∈ events → files' path = files path) :
    Executes files' limit? depth base steps events result := by
  induction h with
  | done => exact .done
  | write _ ih => exact .write (ih hsame)
  | idle ho _ ih =>
    exact .idle (opening_eq_idle_iff.mpr (opening_eq_idle_iff.mp ho)) (ih hsame)
  | stopped ho =>
    refine .stopped ((opening_of_files_eq fun path hd => ?_).trans ho)
    rw [ho] at hd
    exact hsame _ path hd
  | failed ho _ ih =>
    refine .failed ((opening_of_files_eq fun path hd => ?_).trans ho)
      (ih fun d path hd => hsame d path (by simp [hd]))
    rw [ho, Opening.events] at hd
    refine hsame _ path (List.mem_append_left _ hd)
  | included ho _ _ ih ihRest =>
    refine .included ((opening_of_files_eq fun path hd => ?_).trans ho)
      (ih fun d path hd => hsame d path (by simp [hd]))
      (ihRest fun d path hd => hsame d path (by simp [hd]))
    rw [ho, Opening.events] at hd
    exact hsame _ path (List.mem_append_left _ hd)

/-- The error that an event means: an include may be refused, a file may be unreadable. -/
def Event.failure? (files : FileSource) (limit? : Option Limit) : Event → Option Stop
  | reached depth _ => Limit.refusal? limit? depth
  | read _ path =>
    match files path with
    | .error fault => some (.failed (.unreadable path fault))
    | .ok _ => none

theorem Event.failure?_read {d : Nat} {path : Path} {e : Stop}
    (h : Event.failure? files limit? (.read d path) = some e) :
    ∃ fault, e = .failed (.unreadable path fault) ∧ files path = .error fault := by
  simp only [Event.failure?] at h
  split at h
  · next fault hf =>
    cases h
    exact ⟨fault, rfl, hf⟩
  · cases h

/-- The error that a result is, if it is one. -/
def errorOf? : Except Stop String → Option Stop
  | .ok _ => none
  | .error e => some e

theorem errorOf?_eq_some_iff {result : Except Stop String} {e : Stop} :
    errorOf? result = some e ↔ result = .error e := by
  cases result <;> simp [errorOf?]

theorem errorOf?_map (s : String) (result : Except Stop String) :
    errorOf? (result.map (s ++ ·)) = errorOf? result := by
  cases result <;> rfl

/-- What goes wrong is the first failure on the way. -/
theorem Executes.findSome?_failure {depth : Nat} {base : Path} {steps : List Step}
    {events : List Event} {result : Except Stop String}
    (h : Executes files limit? depth base steps events result) :
    events.findSome? (Event.failure? files limit?) = errorOf? result := by
  induction h with
  | done => rfl
  | write _ ih => rw [errorOf?_map, ih]
  | idle _ _ ih => exact ih
  | stopped ho =>
    obtain ⟨path, ⟨hr, rfl⟩ | ⟨fault, hr, hf, rfl, rfl⟩⟩ := opening_eq_stopped ho
    · simp [Event.failure?, errorOf?, hr]
    · simp [Event.failure?, errorOf?, hr, hf]
  | failed ho _ ih =>
    obtain ⟨hr, hf⟩ := opening_eq_opened ho
    simp [Event.failure?, hr, hf, ih]
  | included ho _ _ ih ihRest =>
    obtain ⟨hr, hf⟩ := opening_eq_opened ho
    rw [errorOf?_map]
    simp [Event.failure?, errorOf?, hr, hf, ih, ihRest, List.findSome?_append]

/-! ## Depths -/

theorem Executes.refusal_of_read {depth : Nat} {base : Path} {steps : List Step}
    {events : List Event} {result : Except Stop String}
    (h : Executes files limit? depth base steps events result) {d : Nat} {path : Path}
    (hread : .read d path ∈ events) : Limit.refusal? limit? d = none := by
  induction h with
  | done => cases hread
  | write _ ih => exact ih hread
  | idle _ _ ih => exact ih hread
  | stopped ho =>
    obtain ⟨path', ⟨_, rfl⟩ | ⟨_, hr, _, _, rfl⟩⟩ := opening_eq_stopped ho
    · simp at hread
    · simp only [List.mem_cons, reduceCtorEq, false_or, List.not_mem_nil, or_false,
        Event.read.injEq] at hread
      rw [hread.1, hr]
  | failed ho _ ih =>
    simp only [List.mem_cons, reduceCtorEq, false_or, Event.read.injEq] at hread
    rcases hread with ⟨rfl, _⟩ | hread
    · exact (opening_eq_opened ho).1
    · exact ih hread
  | included ho _ _ ih ihRest =>
    simp only [List.mem_cons, List.mem_append, reduceCtorEq, false_or, Event.read.injEq] at hread
    rcases hread with ⟨rfl, _⟩ | hread | hread
    · exact (opening_eq_opened ho).1
    · exact ih hread
    · exact ihRest hread

/-- An include that is refused is the last thing that happens. -/
theorem Executes.result_of_refused {depth : Nat} {base : Path} {steps : List Step}
    {events : List Event} {result : Except Stop String}
    (h : Executes files limit? depth base steps events result) {d : Nat} {path : Path}
    {e : Stop} (hreached : .reached d path ∈ events)
    (hr : Limit.refusal? limit? d = some e) : result = .error e := by
  induction h with
  | done => cases hreached
  | write _ ih => rw [ih hreached]; rfl
  | idle _ _ ih => exact ih hreached
  | stopped ho =>
    obtain ⟨path', ⟨hr', rfl⟩ | ⟨_, hr', _, _, rfl⟩⟩ := opening_eq_stopped ho
    · simp only [List.mem_cons, List.not_mem_nil, or_false, Event.reached.injEq] at hreached
      rw [hreached.1, hr'] at hr
      cases hr
      rfl
    · simp only [List.mem_cons, reduceCtorEq, List.not_mem_nil, or_false,
        Event.reached.injEq] at hreached
      rw [hreached.1, hr'] at hr
      cases hr
  | failed ho _ ih =>
    simp only [List.mem_cons, reduceCtorEq, false_or, Event.reached.injEq] at hreached
    rcases hreached with ⟨rfl, _⟩ | hreached
    · cases (opening_eq_opened ho).1.symm.trans hr
    · exact ih hreached
  | included ho _ _ ih ihRest =>
    simp only [List.mem_cons, List.mem_append, reduceCtorEq, false_or,
      Event.reached.injEq] at hreached
    rcases hreached with ⟨rfl, _⟩ | hreached | hreached
    · cases (opening_eq_opened ho).1.symm.trans hr
    · cases ih hreached
    · rw [ihRest hreached]; rfl

theorem Executes.depth_le_of_reached {limit : Limit} {depth : Nat} {base : Path}
    {steps : List Step} {events : List Event} {result : Except Stop String}
    (h : Executes files (some limit) depth base steps events result) (hd : depth ≤ limit.depth)
    {d : Nat} {path : Path} (hreached : .reached d path ∈ events) : d ≤ limit.depth + 1 := by
  induction h with
  | done => cases hreached
  | write _ ih => exact ih hd hreached
  | idle _ _ ih => exact ih hd hreached
  | stopped ho =>
    obtain ⟨path', ⟨_, rfl⟩ | ⟨_, _, _, _, rfl⟩⟩ := opening_eq_stopped ho
    · simp only [List.mem_cons, List.not_mem_nil, or_false, Event.reached.injEq] at hreached
      omega
    · simp only [List.mem_cons, reduceCtorEq, List.not_mem_nil, or_false,
        Event.reached.injEq] at hreached
      omega
  | failed ho _ ih =>
    have hdeeper := Limit.refusal?_eq_none_iff.mp (opening_eq_opened ho).1
    simp only [List.mem_cons, reduceCtorEq, false_or, Event.reached.injEq] at hreached
    rcases hreached with ⟨rfl, _⟩ | hreached
    · omega
    · exact ih hdeeper hreached
  | included ho _ _ ih ihRest =>
    have hdeeper := Limit.refusal?_eq_none_iff.mp (opening_eq_opened ho).1
    simp only [List.mem_cons, List.mem_append, reduceCtorEq, false_or,
      Event.reached.injEq] at hreached
    rcases hreached with ⟨rfl, _⟩ | hreached | hreached
    · omega
    · exact ih hdeeper hreached
    · exact ihRest hd hreached

/-! ## Loaders -/

/-- A loader that allows `k` more levels answers an include as its opening says. -/
theorem includeWith_loader (files : FileSource) (overrun : Stop) (k depth : Nat)
    (base : Path) (args : String) (c : Context) :
    includeWith (loader files overrun k) base args c =
      match opening files (some ⟨depth + k, overrun⟩) (depth + 1) base args c with
      | .idle => .ok ""
      | .stopped _ e => .error e
      | .opened path source d =>
        renderSource (loader files overrun (k - 1)) path.directory source.toList d := by
  unfold includeWith opening
  cases words args.toList with
  | nil => rfl
  | cons target params =>
    cases k with
    | zero =>
      have hr : Limit.refusal? (some ⟨depth + 0, overrun⟩) (depth + 1) = some overrun :=
        if_pos (Nat.lt_succ_self depth)
      simp only [hr, loader]
    | succ k =>
      have hr : Limit.refusal? (some ⟨depth + (k + 1), overrun⟩) (depth + 1) = none :=
        Limit.refusal?_eq_none_iff.mpr (Nat.add_le_add_left (Nat.le_add_left 1 k) depth)
      simp only [hr, loader, renderFileWith]
      cases files (targetPath base target) <;> rfl

/-- A loader that allows `k` more levels follows the course that stops `k` levels deeper. -/
theorem executes_loader (files : FileSource) (overrun : Stop) (k depth : Nat) (base : Path)
    (steps : List Step) :
    ∃ events, Executes files (some ⟨depth + k, overrun⟩) depth base steps events
      (perform (includeWith (loader files overrun k) base) steps) := by
  induction k using Nat.strongRecOn generalizing depth base steps with
  | ind k ihDeeper =>
    induction steps with
    | nil => exact ⟨_, .done⟩
    | cons step rest ih =>
      obtain ⟨later, hlater⟩ := ih
      cases step with
      | write s =>
        rw [perform_cons_of_ok rest rfl]
        exact ⟨_, .write hlater⟩
      | visit args c =>
        have hvisit : Step.result (includeWith (loader files overrun k) base) (.visit args c) = _ :=
          includeWith_loader files overrun k depth base args c
        cases ho : opening files (some ⟨depth + k, overrun⟩) (depth + 1) base args c with
        | idle =>
          rw [ho] at hvisit
          dsimp only at hvisit
          rw [perform_cons_of_ok rest hvisit, map_empty_append]
          exact ⟨_, .idle ho hlater⟩
        | stopped events e =>
          rw [ho] at hvisit
          dsimp only at hvisit
          rw [perform_cons_of_error rest hvisit]
          exact ⟨_, .stopped ho⟩
        | opened path source d =>
          rw [ho] at hvisit
          dsimp only at hvisit
          have hk : depth + 1 ≤ depth + k :=
            Limit.refusal?_eq_none_iff.mp (opening_eq_opened ho).1
          obtain ⟨inner, hinner⟩ :=
            ihDeeper (k - 1) (by omega) (depth + 1) path.directory (sourceSteps source.toList d)
          rw [← renderSource_eq, show depth + 1 + (k - 1) = depth + k by omega] at hinner
          cases hr : renderSource (loader files overrun (k - 1)) path.directory source.toList d with
          | error e =>
            rw [hr] at hvisit hinner
            rw [perform_cons_of_error rest hvisit]
            exact ⟨_, .failed ho hinner⟩
          | ok s =>
            rw [hr] at hvisit hinner
            rw [perform_cons_of_ok rest hvisit]
            exact ⟨_, .included ho hinner hlater⟩

end Stencil
