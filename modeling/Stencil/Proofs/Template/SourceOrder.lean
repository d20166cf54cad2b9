import Stencil.Proofs.Template.Attributes

/-!
Attributes in the order of their line.

From left to right a tag line names attributes with its shorthands, where a dot stands for the class
and a number sign for the id, then in its list and with its words (`sourceNames`). The attributes of
the tag stand in the order of these names unless an id shorthand comes before the first class
shorthand: all classes are put in front of the id then, too (`names_eq_sourceNames_iff`).
-/

namespace Stencil.Tag

/-! ## What is given where -/

/-- The signs and names of the `.class` and `#id` parts that are glued to the name of a tag. -/
def shorthands (line : List Char) : List (Char × List Char) :=
  let rest := line.dropWhile Char.isAlphanum
  (shorthandsFrom rest.length rest).1

/-- What the line gives behind its shorthands. -/
def laterGiven (line : List Char) : List Assignment :=
  let rest := line.dropWhile Char.isAlphanum
  let (listed, rest) := listedGiven (shorthandsFrom rest.length rest).2
  listed ++ wordsGiven (words (trim rest))

theorem givenAttrs_eq (line : List Char) :
    givenAttrs line = shorthandGiven (shorthands line) ++ laterGiven line :=
  List.append_assoc _ _ _

/-- The name of the attribute that a sign stands for. -/
def signName (sign : Char) : String := if sign == '.' then "class" else "id"

/-- The names as the line gives them, from left to right. -/
def sourceNames (line : List Char) : List String :=
  (shorthands line).map (fun part => signName part.1) ++
    (laterGiven line).map fun a => String.ofList a.1

/-- If there are classes among the parts, one of them comes first. -/
def ClassFirst (parts : List (Char × List Char)) : Prop :=
  (∃ part ∈ parts, part.1 = '.') → parts.head?.map (·.1) = some '.'

theorem sign_of_mem_shorthandsFrom {fuel : Nat} {s : List Char} :
    ∀ part ∈ (shorthandsFrom fuel s).1, part.1 = '.' ∨ part.1 = '#' := by
  intro part h
  fun_induction shorthandsFrom fuel s with
  | case1 => cases h
  | case2 => cases h
  | case3 => cases h
  | case4 fuel sign c cs hsign more rest heq ih =>
    rw [heq] at ih
    rcases List.mem_cons.mp h with rfl | h
    · simpa using (Bool.and_eq_true_iff.mp hsign).1
    · exact ih h
  | case5 => cases h

/-- Classes are given first, and nothing more than one class and one id. -/
theorem names_shorthandGiven (parts : List (Char × List Char)) :
    (shorthandGiven parts).map (fun a => String.ofList a.1) =
      (if parts.any (·.1 == '.') then ["class"] else []) ++
        (if parts.any (·.1 == '#') then ["id"] else []) := by
  have hfilter : ∀ sign, (parts.filter (·.1 == sign)).map (·.2) = [] ↔
      parts.any (·.1 == sign) = false := by
    intro sign
    rw [List.map_eq_nil_iff, List.filter_eq_nil_iff, List.any_eq_false]
  unfold shorthandGiven
  dsimp only
  rw [List.map_append]
  congr 1
  · cases hclass : parts.any (·.1 == '.') with
    | false =>
      rw [(hfilter '.').mpr hclass]
      rfl
    | true =>
      have hne := mt (hfilter '.').mp (by rw [hclass]; exact Bool.noConfusion)
      rw [if_neg (by simpa using hne)]
      rfl
  · cases hid : parts.any (·.1 == '#') with
    | false =>
      rw [(hfilter '#').mpr hid]
      rfl
    | true =>
      have hne := mt (hfilter '#').mp (by rw [hid]; exact Bool.noConfusion)
      rw [List.getLast?_eq_some_getLast hne]
      rfl

/-! ## Names without their repetitions -/

theorem eraseDups_append_congr {names names' : List String}
    (h : names.eraseDups = names'.eraseDups) (more : List String) :
    (names ++ more).eraseDups = (names' ++ more).eraseDups := by
  have hmem : ∀ n, n ∈ names ↔ n ∈ names' := by
    intro n
    rw [← List.mem_eraseDups, h, List.mem_eraseDups]
  have hremove : more.removeAll names = more.removeAll names' := by
    apply List.filter_congr
    intro n _
    rw [List.elem_eq_contains, List.elem_eq_contains, Bool.eq_iff_iff]
    simp [hmem n]
  rw [List.eraseDups_append, List.eraseDups_append, h, hremove]

theorem eraseDups_of_forall_eq {a : String} {names : List String} (h : ∀ n ∈ names, n = a) :
    names.eraseDups = if names.isEmpty then [] else [a] := by
  cases names with
  | nil => rfl
  | cons n names =>
    obtain ⟨rfl, hnames⟩ := List.forall_mem_cons.mp h
    have hnone : names.filter (fun b => !b == n) = [] := by
      rw [List.filter_eq_nil_iff]
      intro b hb
      simp [hnames b hb]
    rw [List.eraseDups_cons, hnone]
    rfl

/-- Two names, of which `a` comes first. -/
theorem eraseDups_of_two {a b : String} {names : List String}
    (h : ∀ n ∈ names, n = a ∨ n = b) (hab : b ≠ a) :
    (a :: names).eraseDups = a :: if b ∈ names then [b] else [] := by
  have hother : ∀ n ∈ names.filter (fun n => !n == a), n = b := by
    intro n hn
    obtain ⟨hmem, hne⟩ := List.mem_filter.mp hn
    exact (h n hmem).resolve_left (by simpa using hne)
  have hempty : (names.filter fun n => !n == a).isEmpty = true ↔ b ∉ names := by
    rw [List.isEmpty_iff, List.filter_eq_nil_iff]
    constructor
    · intro hnone hb
      exact hnone b hb (by simpa using hab)
    · intro hb n hn hne
      exact hb (((h n hn).resolve_left (by simpa using hne)) ▸ hn)
  rw [List.eraseDups_cons, eraseDups_of_forall_eq hother]
  by_cases hb : b ∈ names
  · rw [if_pos hb, if_neg fun h => hempty.mp h hb]
  · rw [if_neg hb, if_pos (hempty.mpr hb)]

theorem head?_eraseDups (names : List String) : names.eraseDups.head? = names.head? := by
  cases names with
  | nil => rfl
  | cons n names => rw [List.eraseDups_cons, List.head?_cons, List.head?_cons]

/-! ## The order -/

theorem any_id_iff {parts : List (Char × List Char)}
    (hsigns : ∀ part ∈ parts, part.1 = '.' ∨ part.1 = '#') :
    parts.any (·.1 == '#') = true ↔ "id" ∈ parts.map fun part => signName part.1 := by
  rw [List.any_eq_true, List.mem_map]
  refine exists_congr fun part => and_congr_right fun hpart => ?_
  rcases hsigns part hpart with h | h <;> rw [h] <;> decide

theorem signName_eq (sign : Char) : signName sign = "class" ∨ signName sign = "id" := by
  unfold signName
  split
  · exact Or.inl rfl
  · exact Or.inr rfl

/-- With the classes first, the shorthands are given in their order. -/
theorem eraseDups_signNames {parts : List (Char × List Char)}
    (hsigns : ∀ part ∈ parts, part.1 = '.' ∨ part.1 = '#') (hfirst : ClassFirst parts) :
    ((shorthandGiven parts).map fun a => String.ofList a.1).eraseDups =
      (parts.map fun part => signName part.1).eraseDups := by
  rw [names_shorthandGiven]
  cases parts with
  | nil => rfl
  | cons part parts =>
    rcases hsigns part List.mem_cons_self with hsign | hsign
    · have hrest : ∀ p ∈ parts, p.1 = '.' ∨ p.1 = '#' := fun p hp =>
        hsigns p (List.mem_cons_of_mem _ hp)
      have hnames : ∀ n ∈ parts.map (fun part => signName part.1), n = "class" ∨ n = "id" := by
        intro n hn
        obtain ⟨p, _, rfl⟩ := List.mem_map.mp hn
        exact signName_eq p.1
      have hclass : signName part.1 = "class" := by rw [hsign]; rfl
      rw [List.map_cons, hclass, eraseDups_of_two hnames (by decide)]
      simp only [List.any_cons, hsign, ← any_id_iff hrest]
      cases parts.any (·.1 == '#') <;> rfl
    · -- a class among the parts would stand at their front
      have hids : ∀ p ∈ part :: parts, p.1 = '#' := by
        intro p hp
        refine (hsigns p hp).resolve_left fun hclass => ?_
        have hfront := hfirst ⟨p, hp, hclass⟩
        simp [hsign] at hfront
      have hnames : ∀ n ∈ (part :: parts).map (fun part => signName part.1), n = "id" := by
        intro n hn
        obtain ⟨p, hp, rfl⟩ := List.mem_map.mp hn
        rw [hids p hp]
        rfl
      have hnone : (part :: parts).any (·.1 == '.') = false := by
        rw [List.any_eq_false]
        intro p hp
        rw [hids p hp]
        decide
      rw [eraseDups_of_forall_eq hnames, hnone, List.any_cons, hsign]
      rfl

/-- With an id in front of the classes, the class is given first all the same. -/
theorem head?_of_not_classFirst {parts : List (Char × List Char)}
    (hsigns : ∀ part ∈ parts, part.1 = '.' ∨ part.1 = '#') (hfirst : ¬ ClassFirst parts) :
    ((shorthandGiven parts).map fun a => String.ofList a.1).head? = some "class" ∧
      (parts.map fun part => signName part.1).head? = some "id" := by
  rw [ClassFirst, Classical.not_imp] at hfirst
  obtain ⟨⟨p, hp, hclass⟩, hfront⟩ := hfirst
  cases parts with
  | nil => cases hp
  | cons part parts =>
    have hsign : part.1 = '#' := by
      refine (hsigns part List.mem_cons_self).resolve_left fun h => hfront ?_
      rw [List.head?_cons, Option.map_some, h]
    have hany : (part :: parts).any (·.1 == '.') = true :=
      List.any_eq_true.mpr ⟨p, hp, by rw [hclass]; rfl⟩
    constructor
    · rw [names_shorthandGiven, hany]
      rfl
    · rw [List.map_cons, hsign]
      rfl

/-- The names stand in the order of the line exactly if no id is in front of its classes. -/
theorem names_eq_sourceNames_iff {line : List Char} {t : Tag} (h : ofLine? line = some t) :
    Entries.names t.attrs = (sourceNames line).eraseDups ↔ ClassFirst (shorthands line) := by
  have hsigns : ∀ part ∈ shorthands line, part.1 = '.' ∨ part.1 = '#' := sign_of_mem_shorthandsFrom
  rw [names_of_ofLine? h, givenAttrs_eq, List.map_append, sourceNames]
  constructor
  · intro hnames
    by_contra hfirst
    obtain ⟨hgiven, hsource⟩ := head?_of_not_classFirst hsigns hfirst
    have hheads := congrArg List.head? hnames
    rw [head?_eraseDups, head?_eraseDups, List.head?_append, List.head?_append, hgiven,
      hsource, Option.some_or, Option.some_or] at hheads
    exact absurd (Option.some.inj hheads) (by decide)
  · intro hfirst
    exact eraseDups_append_congr (eraseDups_signNames hsigns hfirst) _

end Stencil.Tag
