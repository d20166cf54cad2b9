import Stencil.Proofs.Render.Execution

/-!
What can go wrong in a rendering, and how deep it goes.

A template is a source or a file; its course is that of its steps, which nothing includes and which
are therefore at depth zero. A limit on the depth does nothing but end the course at the first
include that is too deep (`limit_cuts_off`), and an error of a rendering is always that of an
include, never one of a malformed line or an expression (`failure_of_render`).

Without a limit fuel stands in for one. A rendering that does not use it up has followed the course
to its end, and what has a course is rendered to its end as soon as there is fuel for the deepest
include on it (`Template.Executes.render_eq`). What has no course, as a file that includes itself,
runs out of any fuel.
-/

namespace Stencil

/-! ## Whole renderings -/

/-- The limit that the options set. -/
def RenderOptions.limit? (o : RenderOptions) : Option Limit :=
  o.maxIncludeDepth.map fun n => ⟨n, .failed (.includeDepthExceeded n)⟩

/-- Where rendering stops: at the limit, or without one where the fuel ends. -/
def RenderOptions.cutoff (o : RenderOptions) (fuel : Nat) : Limit :=
  o.limit?.getD ⟨fuel, .outOfFuel⟩

theorem RenderOptions.loader_eq (o : RenderOptions) (files : FileSource) (fuel : Nat) :
    o.loader files fuel =
      Stencil.loader files (o.cutoff fuel).overrun (o.cutoff fuel).depth := by
  obtain ⟨_ | n⟩ := o <;> rfl

/-- What is rendered: a source with the directory that its includes are resolved against, or the
file at a path. -/
inductive Template where
  | source (base : Path) (text : String)
  | file (path : Path)

namespace Template

def render (o : RenderOptions) (files : FileSource) (fuel : Nat) (c : Context) :
    Template → Except Stop String
  | source base text => Stencil.render o files fuel base text c
  | file path => Stencil.renderFile o files fuel path c

/-- The source and the directory for its includes; a file has to be read for that. -/
def text? (files : FileSource) : Template → Except Stop (Path × String)
  | source base text => .ok (base, text)
  | file path =>
    match files path with
    | .ok text => .ok (path.directory, text)
    | .error fault => .error (.failed (.unreadable path fault))

/-- The events before the source is there. -/
def preamble : Template → List Event
  | source .. => []
  | file path => [.read 0 path]

inductive Executes (files : FileSource) (limit? : Option Limit) (c : Context) (t : Template) :
    List Event → Except Stop String → Prop
  | unreadable {e : Stop} : t.text? files = .error e →
      Executes files limit? c t t.preamble (.error e)
  | opened {base : Path} {text : String} {events : List Event}
      {result : Except Stop String} : t.text? files = .ok (base, text) →
      Stencil.Executes files limit? 0 base (sourceSteps text.toList c) events result →
      Executes files limit? c t (t.preamble ++ events) result

variable {files : FileSource} {limit? : Option Limit} {c : Context} {t : Template}
  {events : List Event} {result : Except Stop String}

theorem render_of_text?_eq_ok (o : RenderOptions) (fuel : Nat) {base : Path} {text : String}
    (h : t.text? files = .ok (base, text)) :
    t.render o files fuel c = Stencil.render o files fuel base text c := by
  cases t with
  | source =>
    cases h
    rfl
  | file path =>
    unfold text? at h
    cases hf : files path with
    | error fault => simp [hf] at h
    | ok source =>
      simp only [hf, Except.ok.injEq, Prod.mk.injEq] at h
      obtain ⟨rfl, rfl⟩ := h
      simp only [render, renderFile, renderFileWith, hf]
      rfl

theorem render_of_text?_eq_error (o : RenderOptions) (fuel : Nat) {e : Stop}
    (h : t.text? files = .error e) : t.render o files fuel c = .error e := by
  cases t with
  | source => cases h
  | file path =>
    unfold text? at h
    cases hf : files path with
    | ok source => simp [hf] at h
    | error fault =>
      simp only [hf, Except.error.injEq] at h
      simp only [render, renderFile, renderFileWith, hf, h]

/-- Every rendering has a course, up to where it stops. -/
theorem executes_render (o : RenderOptions) (files : FileSource) (fuel : Nat) (t : Template)
    (c : Context) :
    ∃ events, t.Executes files (some (o.cutoff fuel)) c events (t.render o files fuel c) := by
  cases h : t.text? files with
  | error e =>
    rw [render_of_text?_eq_error o fuel h]
    exact ⟨_, .unreadable h⟩
  | ok source =>
    obtain ⟨base, text⟩ := source
    obtain ⟨events, hevents⟩ := executes_loader files (o.cutoff fuel).overrun
      (o.cutoff fuel).depth 0 base (sourceSteps text.toList c)
    rw [Nat.zero_add, ← renderSource_eq, ← o.loader_eq] at hevents
    rw [render_of_text?_eq_ok o fuel h]
    exact ⟨_, .opened h hevents⟩

theorem Executes.unique {events' : List Event} {result' : Except Stop String}
    (h : t.Executes files limit? c events result)
    (h' : t.Executes files limit? c events' result') : events = events' ∧ result = result' := by
  cases h with
  | unreadable ht =>
    cases h' with
    | unreadable ht' =>
      cases ht.symm.trans ht'
      exact ⟨rfl, rfl⟩
    | opened ht' => cases ht.symm.trans ht'
  | opened ht h =>
    cases h' with
    | unreadable ht' => cases ht.symm.trans ht'
    | opened ht' h' =>
      cases ht.symm.trans ht'
      obtain ⟨rfl, rfl⟩ := h.unique h'
      exact ⟨rfl, rfl⟩

theorem reached_not_mem_preamble (t : Template) (d : Nat) (path : Path) :
    .reached d path ∉ t.preamble := by
  cases t <;> simp [preamble]

theorem Executes.of_refusal_eq {limit?' : Option Limit}
    (h : t.Executes files limit? c events result)
    (hsame : ∀ d path, .reached d path ∈ events →
      Limit.refusal? limit?' d = Limit.refusal? limit? d) :
    t.Executes files limit?' c events result := by
  cases h with
  | unreadable ht => exact .unreadable ht
  | opened ht h =>
    exact .opened ht (h.of_refusal_eq fun d path hd => hsame d path (List.mem_append_right _ hd))

theorem Executes.of_files_eq {files' : FileSource} (h : t.Executes files limit? c events result)
    (hsame : ∀ d path, .read d path ∈ events → files' path = files path) :
    t.Executes files' limit? c events result := by
  have htext : (∀ event ∈ t.preamble, event ∈ events) → t.text? files' = t.text? files := by
    intro hpreamble
    cases t with
    | source => rfl
    | file path =>
      have hpath := hsame 0 path (hpreamble _ (List.mem_singleton.mpr rfl))
      simp only [text?, hpath]
  cases h with
  | unreadable ht => exact .unreadable ((htext fun _ he => he).trans ht)
  | opened ht h =>
    refine .opened ((htext fun _ he => List.mem_append_left _ he).trans ht)
      (h.of_files_eq fun d path hd => hsame d path (List.mem_append_right _ hd))

theorem Executes.findSome?_failure (h : t.Executes files limit? c events result) :
    events.findSome? (Event.failure? files limit?) = errorOf? result := by
  cases h with
  | unreadable ht =>
    cases t with
    | source => cases ht
    | file path =>
      unfold text? at ht
      cases hf : files path with
      | ok source => simp [hf] at ht
      | error fault =>
        simp only [hf, Except.error.injEq] at ht
        simp [preamble, Event.failure?, errorOf?, hf, ht]
  | opened ht h =>
    have hpreamble : t.preamble.findSome? (Event.failure? files limit?) = none := by
      cases t with
      | source => rfl
      | file path =>
        unfold text? at ht
        cases hf : files path with
        | error fault => simp [hf] at ht
        | ok source => simp [preamble, Event.failure?, hf]
    rw [List.findSome?_append, hpreamble, Option.none_or, h.findSome?_failure]

theorem Executes.refusal_of_read (h : t.Executes files limit? c events result) {d : Nat}
    {path : Path} (hread : .read d path ∈ events) : Limit.refusal? limit? d = none := by
  have hpreamble : .read d path ∈ t.preamble → Limit.refusal? limit? d = none := by
    intro hmem
    cases t with
    | source => cases hmem
    | file path' =>
      cases List.mem_singleton.mp hmem
      cases limit? <;> simp [Limit.refusal?]
  cases h with
  | unreadable _ => exact hpreamble hread
  | opened _ h =>
    rcases List.mem_append.mp hread with hread | hread
    · exact hpreamble hread
    · exact h.refusal_of_read hread

theorem Executes.result_of_refused (h : t.Executes files limit? c events result) {d : Nat}
    {path : Path} {e : Stop} (hreached : .reached d path ∈ events)
    (hr : Limit.refusal? limit? d = some e) : result = .error e := by
  cases h with
  | unreadable _ => exact absurd hreached (reached_not_mem_preamble t d path)
  | opened _ h =>
    rcases List.mem_append.mp hreached with hreached | hreached
    · exact absurd hreached (reached_not_mem_preamble t d path)
    · exact h.result_of_refused hreached hr

theorem Executes.depth_le_of_reached {limit : Limit}
    (h : t.Executes files (some limit) c events result) {d : Nat} {path : Path}
    (hreached : .reached d path ∈ events) : d ≤ limit.depth + 1 := by
  cases h with
  | unreadable _ => exact absurd hreached (reached_not_mem_preamble t d path)
  | opened _ h =>
    rcases List.mem_append.mp hreached with hreached | hreached
    · exact absurd hreached (reached_not_mem_preamble t d path)
    · exact h.depth_le_of_reached (Nat.zero_le _) hreached

end Template

/-! ## The limit -/

/-- Where the fuel suffices, rendering stops only where the options say. -/
theorem RenderOptions.refusal?_cutoff (o : RenderOptions) {fuel depth : Nat}
    (h : o.maxIncludeDepth = none → depth ≤ fuel) :
    Limit.refusal? (some (o.cutoff fuel)) depth = Limit.refusal? o.limit? depth := by
  obtain ⟨_ | n⟩ := o
  · exact Limit.refusal?_eq_none_iff.mpr (h rfl)
  · rfl

theorem RenderOptions.eq_of_refusal {o : RenderOptions} {depth : Nat} {e : Stop}
    (h : Limit.refusal? o.limit? depth = some e) :
    ∃ n, o.maxIncludeDepth = some n ∧ e = .failed (.includeDepthExceeded n) := by
  obtain ⟨_ | n⟩ := o
  · cases h
  · exact ⟨n, rfl, (Limit.refusal?_eq_some_iff.mp h).2.symm⟩

theorem Template.Executes.error_cases {o : RenderOptions} {files : FileSource} {t : Template}
    {c : Context} {events : List Event} {e : Stop}
    (h : t.Executes files o.limit? c events (.error e)) :
    (∃ path fault, e = .failed (.unreadable path fault) ∧ files path = .error fault) ∨
      ∃ n, o.maxIncludeDepth = some n ∧ e = .failed (.includeDepthExceeded n) := by
  obtain ⟨event, _, hfailure⟩ := List.exists_of_findSome?_eq_some h.findSome?_failure
  cases event with
  | reached depth path => exact Or.inr (RenderOptions.eq_of_refusal hfailure)
  | read depth path =>
    obtain ⟨fault, he, hf⟩ := Event.failure?_read hfailure
    exact Or.inl ⟨path, fault, he, hf⟩

/-- A course does not end for want of fuel. -/
theorem Template.Executes.ne_outOfFuel {o : RenderOptions} {files : FileSource} {t : Template}
    {c : Context} {events : List Event} {result : Except Stop String}
    (h : t.Executes files o.limit? c events result) : result ≠ .error .outOfFuel := by
  rintro rfl
  rcases h.error_cases with ⟨_, _, he, _⟩ | ⟨_, _, he⟩
  · cases he
  · cases he

/-- **A limit only cuts off.** Under a limit of `n` every rendering comes to an end, whatever the
fuel. No file on its way is read more than `n` includes deep, and what the files say that it does
not read makes no difference. It ends in the error for the limit exactly if it reaches an include
that would be one deeper; siblings and the rounds of a loop are equally deep. Under any higher limit
the result is the same, unless it is this error. -/
theorem limit_cuts_off (files : FileSource) (t : Template) (c : Context) {n m : Nat}
    (h : n ≤ m) (fuel fuel' : Nat) :
    (∃ events,
      t.Executes files (RenderOptions.limit? ⟨some n⟩) c events
        (t.render ⟨some n⟩ files fuel c) ∧
      (∀ depth path, .read depth path ∈ events → depth ≤ n) ∧
      (∀ files', (∀ depth path, .read depth path ∈ events → files' path = files path) →
        t.render ⟨some n⟩ files' fuel c = t.render ⟨some n⟩ files fuel c) ∧
      (t.render ⟨some n⟩ files fuel c = .error (.failed (.includeDepthExceeded n)) ↔
        ∃ path, .reached (n + 1) path ∈ events)) ∧
    t.render ⟨some n⟩ files fuel c ≠ .error .outOfFuel ∧
    (t.render ⟨some n⟩ files fuel c = t.render ⟨some m⟩ files fuel' c ∨
      t.render ⟨some n⟩ files fuel c = .error (.failed (.includeDepthExceeded n))) := by
  obtain ⟨events, hevents⟩ := t.executes_render ⟨some n⟩ files fuel c
  have hrefused : Limit.refusal? (RenderOptions.limit? ⟨some n⟩) (n + 1) =
      some (.failed (.includeDepthExceeded n)) := if_pos (Nat.lt_succ_self n)
  refine ⟨?_, Template.Executes.ne_outOfFuel (o := ⟨some n⟩) hevents, ?_⟩
  · refine ⟨events, hevents, ?_, ?_, ?_, ?_⟩
    · intro depth path hread
      exact Limit.refusal?_eq_none_iff.mp (hevents.refusal_of_read hread)
    · intro files' hsame
      obtain ⟨events', hevents'⟩ := t.executes_render ⟨some n⟩ files' fuel c
      exact (hevents'.unique (hevents.of_files_eq hsame)).2
    · intro hexceeded
      have hfirst := hevents.findSome?_failure
      rw [hexceeded] at hfirst
      obtain ⟨event, hmem, hfailure⟩ := List.exists_of_findSome?_eq_some hfirst
      cases event with
      | read depth path =>
        obtain ⟨_, he, _⟩ := Event.failure?_read hfailure
        cases he
      | reached depth path =>
        -- the depth is refused, and no include is met that is more than one too deep
        have hle : depth ≤ n + 1 := hevents.depth_le_of_reached hmem
        have hlt : n < depth := (Limit.refusal?_eq_some_iff.mp hfailure).1
        obtain rfl : depth = n + 1 := Nat.le_antisymm hle hlt
        exact ⟨path, hmem⟩
    · rintro ⟨path, hreached⟩
      exact hevents.result_of_refused hreached hrefused
  · by_cases hreached : ∃ depth path, .reached depth path ∈ events ∧ n < depth
    · obtain ⟨depth, path, hmem, hdepth⟩ := hreached
      exact Or.inr (hevents.result_of_refused hmem (if_pos hdepth))
    · obtain ⟨events', hevents'⟩ := t.executes_render ⟨some m⟩ files fuel' c
      refine Or.inl ((hevents.of_refusal_eq fun depth path hmem => ?_).unique hevents').2
      have hdepth : depth ≤ n := Nat.le_of_not_lt fun hlt => hreached ⟨depth, path, hmem, hlt⟩
      have hn : Limit.refusal? (RenderOptions.limit? ⟨some n⟩) depth = none :=
        Limit.refusal?_eq_none_iff.mpr hdepth
      have hm : Limit.refusal? (RenderOptions.limit? ⟨some m⟩) depth = none :=
        Limit.refusal?_eq_none_iff.mpr (Nat.le_trans hdepth h)
      exact hm.trans hn.symm

/-- A file that includes itself is read once for each level that the limit allows. -/
theorem limit_cuts_off_cycle :
    1 ≤ 3 ∧ ∃ events,
      (Template.file ⟨"a"⟩).Executes (fun _ => .ok "p x\ninclude a")
        (RenderOptions.limit? ⟨some 1⟩) Context.empty events
        (.error (.failed (.includeDepthExceeded 1))) ∧
      (∀ depth path, .read depth path ∈ events → depth ≤ 1) ∧
      ∃ path, .reached 2 path ∈ events := by
  have hsteps : ∀ c, sourceSteps "p x\ninclude a".toList c =
      [.write "<p>x</p>\n", .visit "a" c] := by
    intro c
    have hparse : Forest.parse "p x\ninclude a".toList =
        [.mk 0 (.tag ⟨"p", [], some "x", false⟩) [], .mk 0 (.directive .includeFile "a") []] := rfl
    rw [sourceSteps, hparse]
    simp only [nodeSteps]
    rfl
  have hfile : ∀ load base c e, load (targetPath base ['a']) c = .error e →
      renderSource load base "p x\ninclude a".toList c = .error e := by
    intro load base c e he
    have hvisit : Step.result (includeWith load base) (.visit "a" c) = .error e := he
    rw [renderSource_eq, hsteps, perform_cons_of_ok _ rfl, perform_cons_of_error _ hvisit]
    rfl
  have hrender : (Template.file ⟨"a"⟩).render ⟨some 1⟩ (fun _ => .ok "p x\ninclude a") 0
      Context.empty = .error (.failed (.includeDepthExceeded 1)) :=
    hfile _ _ _ _ (hfile _ _ _ _ rfl)
  have hlimit : 1 ≤ 3 := by decide
  obtain ⟨⟨events, hevents, hread, _, hreached⟩, _⟩ :=
    limit_cuts_off (fun _ => .ok "p x\ninclude a") (.file ⟨"a"⟩) Context.empty hlimit 0 0
  rw [hrender] at hevents
  exact ⟨hlimit, events, hevents, hread, hreached.mp hrender⟩

/-! ## Fuel -/

namespace Template

variable {o : RenderOptions} {files : FileSource} {t : Template} {c : Context}
  {events : List Event} {result : Except Stop String} {fuel : Nat}

/-- What has a course is followed to its end by fuel for the deepest include on it. -/
theorem Executes.render_eq (h : t.Executes files o.limit? c events result)
    (hfuel : o.maxIncludeDepth = none → ∀ depth path, .reached depth path ∈ events →
      depth ≤ fuel) : t.render o files fuel c = result := by
  obtain ⟨events', hevents'⟩ := t.executes_render o files fuel c
  refine (hevents'.unique (h.of_refusal_eq fun depth path hmem => ?_)).2
  exact o.refusal?_cutoff fun hnone => hfuel hnone depth path hmem

/-- A rendering that does not run out of fuel has followed a course to its end. -/
theorem executes_of_render_ne (h : t.render o files fuel c ≠ .error .outOfFuel) :
    ∃ events, t.Executes files o.limit? c events (t.render o files fuel c) ∧
      (o.maxIncludeDepth = none → ∀ depth path, .reached depth path ∈ events → depth ≤ fuel) := by
  obtain ⟨events, hevents⟩ := t.executes_render o files fuel c
  have hle : o.maxIncludeDepth = none → ∀ depth path, .reached depth path ∈ events →
      depth ≤ fuel := by
    intro hnone depth path hmem
    refine Nat.le_of_not_lt fun hlt => h ?_
    obtain rfl : o = ⟨none⟩ := congrArg RenderOptions.mk hnone
    exact hevents.result_of_refused hmem (if_pos hlt)
  refine ⟨events, hevents.of_refusal_eq fun depth path hmem => ?_, hle⟩
  exact (o.refusal?_cutoff fun hnone => hle hnone depth path hmem).symm

/-- More fuel changes nothing where there was enough. -/
theorem render_eq_of_le (h : t.render o files fuel c ≠ .error .outOfFuel) {more : Nat}
    (hmore : fuel ≤ more) : t.render o files more c = t.render o files fuel c := by
  obtain ⟨events, hevents, hle⟩ := executes_of_render_ne h
  exact hevents.render_eq fun hnone depth path hmem =>
    Nat.le_trans (hle hnone depth path hmem) hmore

end Template

theorem exists_deepest (events : List Event) :
    ∃ deepest, ∀ depth path, .reached depth path ∈ events → depth ≤ deepest := by
  induction events with
  | nil => exact ⟨0, nofun⟩
  | cons event events ih =>
    obtain ⟨deepest, hle⟩ := ih
    cases event with
    | read depth path =>
      refine ⟨deepest, fun d p hmem => hle d p ?_⟩
      simpa using hmem
    | reached depth path =>
      refine ⟨max depth deepest, fun d p hmem => ?_⟩
      rcases List.mem_cons.mp hmem with heq | hmem
      · cases heq
        exact Nat.le_max_left ..
      · exact Nat.le_trans (hle d p hmem) (Nat.le_max_right ..)

/-- A template that includes itself uses up any fuel. -/
theorem render_of_includes_itself (fuel : Nat) (base : Path) (c : Context) :
    render ⟨none⟩ (fun _ => .ok "include a") fuel base "include a" c = .error .outOfFuel := by
  refine Classical.byContradiction fun h => ?_
  obtain ⟨events, hevents, _⟩ := Template.executes_of_render_ne (t := .source base "include a") h
  generalize Template.render _ _ _ _ _ = result at hevents
  cases hevents with
  | unreadable ht => cases ht
  | opened ht hevents =>
    cases ht
    exact not_executes_of_includes_itself hevents

/-! ## Failures -/

theorem Template.render_eq_ok_of_no_includes (o : RenderOptions) {files : FileSource}
    {t : Template} (c : Context) {base : Path} {text : String}
    (ht : t.text? files = .ok (base, text))
    (hlines : ∀ raw ∈ splitLines text.toList, ∀ args,
      classify (trim raw) ≠ some (.directive .includeFile args)) :
    ∃ html, ∀ fuel, t.render o files fuel c = .ok html := by
  have hvisit : ∀ args d, .visit args d ∉ sourceSteps text.toList c := by
    intro args d hvisit
    obtain ⟨line, hline, hcontent⟩ := mem_lines_of_visit_mem hvisit
    obtain ⟨raw, hraw, hclass⟩ := exists_raw_of_mem_parse hline
    exact hlines raw hraw args (hcontent ▸ hclass)
  obtain ⟨html, hhtml⟩ := perform_eq_ok hvisit
  refine ⟨html, fun fuel => ?_⟩
  rw [t.render_of_text?_eq_ok o fuel ht, Stencil.render, renderSource_eq, hhtml]

/-- **Only includes can fail.** A template without include lines is rendered, whatever else is
wrong with it. What has a course ends as the course does as soon as there is enough fuel, and that
is a failure exactly if something on the way fails, which can only be an include that is too deep or
a file that cannot be read; the error is that of the first. And whatever comes out of a rendering,
unless it runs out of fuel, is the end of such a course, and more fuel does not change it. Under a
limit no rendering runs out of fuel. -/
theorem failure_of_render (o : RenderOptions) (files : FileSource) (t : Template) (c : Context) :
    (∀ base text, t.text? files = .ok (base, text) →
      (∀ raw ∈ splitLines text.toList, ∀ args,
        classify (trim raw) ≠ some (.directive .includeFile args)) →
      ∃ html, ∀ fuel, t.render o files fuel c = .ok html) ∧
    (∀ events result, t.Executes files o.limit? c events result →
      (∃ enough, ∀ fuel, enough ≤ fuel → t.render o files fuel c = result) ∧
      ∀ e, (result = .error e ↔ events.findSome? (Event.failure? files o.limit?) = some e) ∧
        (result = .error e →
          (∃ path fault, e = .failed (.unreadable path fault) ∧ files path = .error fault) ∨
          ∃ n, o.maxIncludeDepth = some n ∧ e = .failed (.includeDepthExceeded n))) ∧
    (∀ fuel, t.render o files fuel c ≠ .error .outOfFuel →
      (∃ events, t.Executes files o.limit? c events (t.render o files fuel c)) ∧
      ∀ more, fuel ≤ more → t.render o files more c = t.render o files fuel c) ∧
    (o.maxIncludeDepth ≠ none → ∀ fuel, t.render o files fuel c ≠ .error .outOfFuel) := by
  refine ⟨?_, ?_, ?_, ?_⟩
  · exact fun base text ht hlines => t.render_eq_ok_of_no_includes o c ht hlines
  · intro events result hevents
    obtain ⟨enough, henough⟩ := exists_deepest events
    refine ⟨⟨enough, fun fuel hfuel => ?_⟩, fun e => ⟨?_, ?_⟩⟩
    · exact hevents.render_eq fun _ depth path hmem =>
        Nat.le_trans (henough depth path hmem) hfuel
    · rw [hevents.findSome?_failure, errorOf?_eq_some_iff]
    · rintro rfl
      exact hevents.error_cases
  · intro fuel h
    obtain ⟨events, hevents, _⟩ := Template.executes_of_render_ne h
    exact ⟨⟨events, hevents⟩, fun more hmore => Template.render_eq_of_le h hmore⟩
  · intro hlimit fuel
    obtain ⟨events, hevents⟩ := t.executes_render o files fuel c
    have hcourse : t.Executes files o.limit? c events (t.render o files fuel c) :=
      hevents.of_refusal_eq fun _ _ _ => (o.refusal?_cutoff fun hnone => absurd hnone hlimit).symm
    exact hcourse.ne_outOfFuel

end Stencil
