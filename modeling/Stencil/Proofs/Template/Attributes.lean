import Mathlib.Data.List.Induction
import Stencil.Proofs.Entries
import Stencil.Proofs.Template.Tag

/-!
What a tag line gives to attributes.

A line gives names raw values in this order: the classes and the last id of its shorthands, the
parts of the list in parentheses, and the words in front of the text (`givenAttrs`). The attributes
of the tag come from adding one after the other (`attrs_of_ofLine?`). So each name stands where it
was given first (`names_of_ofLine?`), a class is all values given for it merged from left to right
(`get?_class_of_ofLine?`), and an attribute that need not be merged has the last value given for it
(`get?_addAll`).
-/

namespace Stencil.Tag

/-! ## What is given -/

/-- A name and a raw value. -/
abbrev Assignment := List Char × List Char

def addAll (attrs : Entries String) (given : List Assignment) : Entries String :=
  given.foldl (fun attrs a => addAttr attrs a.1 a.2) attrs

theorem addAll_append (attrs : Entries String) (given more : List Assignment) :
    addAll attrs (given ++ more) = addAll (addAll attrs given) more :=
  List.foldl_append

def shorthandGiven (parts : List (Char × List Char)) : List Assignment :=
  let classes := (parts.filter (·.1 == '.')).map (·.2)
  let ids := (parts.filter (·.1 == '#')).map (·.2)
  (if classes.isEmpty then []
    else [("class".toList, '"' :: [' '].intercalate classes ++ ['"'])]) ++
  (ids.getLast?.map fun id => ("id".toList, '"' :: id ++ ['"'])).toList

/-- What a word gives, if a name of this kind may stand without a value. -/
def given? (mayStandAlone : List Char → Bool) (word : List Char) : Option Assignment :=
  match assignment? word with
  | some a => some a
  | none => if mayStandAlone word then some (word, "true".toList) else none

/-- What the list in parentheses gives, and what follows it. -/
def listedGiven (s : List Char) : List Assignment × List Char :=
  match s with
  | '(' :: inside =>
    match splitParens inside with
    | some (inside, rest) =>
      ((splitUnquoted (fun c => c == ' ' || c == ',') inside).filterMap (given? isAttrName), rest)
    | none => ([], s)
  | _ => ([], s)

/-- What the words up to the text give. -/
def wordsGiven : List (List Char) → List Assignment
  | [] => []
  | word :: rest =>
    match given? (fun word => isAttrName word && isBooleanName word) word with
    | some a => a :: wordsGiven rest
    | none => []

/-- What a tag line gives, in its order. -/
def givenAttrs (line : List Char) : List Assignment :=
  let rest := line.dropWhile Char.isAlphanum
  let (parts, rest) := shorthandsFrom rest.length rest
  let (listed, rest) := listedGiven rest
  shorthandGiven parts ++ listed ++ wordsGiven (words (trim rest))

/-! ## Adding all of it -/

theorem shorthandAttrs_eq (parts : List (Char × List Char)) :
    shorthandAttrs parts = addAll [] (shorthandGiven parts) := by
  unfold shorthandAttrs shorthandGiven
  dsimp only
  generalize (parts.filter (·.1 == '.')).map (·.2) = classes
  cases classes with
  | nil => cases ((parts.filter (·.1 == '#')).map (·.2)).getLast? <;> rfl
  | cons => cases ((parts.filter (·.1 == '#')).map (·.2)).getLast? <;> rfl

theorem addListed_eq (attrs : Entries String) (word : List Char) :
    addListed attrs word = addAll attrs (given? isAttrName word).toList := by
  unfold addListed given?
  cases assignment? word with
  | some a => rfl
  | none =>
    dsimp only
    split <;> rfl

theorem foldl_addListed (attrs : Entries String) (parts : List (List Char)) :
    parts.foldl addListed attrs = addAll attrs (parts.filterMap (given? isAttrName)) := by
  induction parts generalizing attrs with
  | nil => rfl
  | cons part parts ih =>
    rw [List.foldl_cons, ih, addListed_eq, ← addAll_append]
    cases h : given? isAttrName part <;> simp [h]

theorem listedAttrs_eq (attrs : Entries String) (s : List Char) :
    listedAttrs attrs s = (addAll attrs (listedGiven s).1, (listedGiven s).2) := by
  fun_cases listedGiven s with
  | case1 inside listed rest hparens => simp only [listedAttrs, hparens, foldl_addListed]
  | case2 inside hparens => simp only [listedAttrs, hparens]; rfl
  | case3 s hother =>
    rw [listedAttrs]
    · rfl
    · exact hother

theorem wordAttrs_eq (attrs : Entries String) (ws : List (List Char)) :
    (wordAttrs attrs ws).1 = addAll attrs (wordsGiven ws) := by
  fun_induction wordAttrs attrs ws with
  | case1 => rfl
  | case2 attrs word rest name value hword ih =>
    rw [ih, wordsGiven, given?, hword]
    rfl
  | case3 attrs word rest hword hname ih =>
    rw [ih, wordsGiven, given?, hword, if_pos hname]
    rfl
  | case4 attrs word rest hword hname =>
    rw [wordsGiven, given?, hword, if_neg hname]
    rfl

/-- The attributes of a tag are what its line gives, added in order. -/
theorem attrs_of_ofLine? {line : List Char} {t : Tag} (h : ofLine? line = some t) :
    t.attrs = addAll [] (givenAttrs line) := by
  unfold ofLine? at h
  dsimp only at h
  split at h
  · cases h
  · cases h
    dsimp only
    rw [wordAttrs_eq, listedAttrs_eq, shorthandAttrs_eq, ← addAll_append, ← addAll_append,
      ← List.append_assoc]
    rfl

/-! ## The class -/

theorem get?_class_addAttr (attrs : Entries String) (name value : List Char) :
    (addAttr attrs name value).get? "class" =
      if name = "class".toList then
        some (String.ofList
          (match attrs.get? "class" with
          | some old => mergeClass old.toList value
          | none => value))
      else attrs.get? "class" := by
  rw [addAttr, Entries.get?_insert]
  by_cases hname : name = "class".toList
  · subst hname
    rfl
  · have hne : String.ofList name ≠ "class" := by
      intro h
      rw [← h, String.toList_ofList] at hname
      exact hname rfl
    rw [if_neg hname, if_neg hne]

/-- The values that are given for the class. -/
def classValues (given : List Assignment) : List (List Char) :=
  (given.filter (·.1 == "class".toList)).map (·.2)

theorem classValues_cons (a : Assignment) (given : List Assignment) :
    classValues (a :: given) =
      if a.1 = "class".toList then a.2 :: classValues given else classValues given := by
  unfold classValues
  rw [List.filter_cons]
  by_cases hname : a.1 = "class".toList
  · rw [if_pos hname, if_pos (beq_iff_eq.mpr hname), List.map_cons]
  · rw [if_neg hname, if_neg fun h => hname (beq_iff_eq.mp h)]

theorem addAll_cons (attrs : Entries String) (a : Assignment) (given : List Assignment) :
    addAll attrs (a :: given) = addAll (addAttr attrs a.1 a.2) given := rfl

theorem get?_class_addAll_of_some {attrs : Entries String} {old : List Char}
    (h : attrs.get? "class" = some (String.ofList old)) (given : List Assignment) :
    (addAll attrs given).get? "class" =
      some (String.ofList ((classValues given).foldl mergeClass old)) := by
  induction given generalizing attrs old with
  | nil => exact h
  | cons a given ih =>
    have hadd := get?_class_addAttr attrs a.1 a.2
    rw [addAll_cons, classValues_cons]
    by_cases hname : a.1 = "class".toList
    · simp only [h, if_pos hname, String.toList_ofList] at hadd
      rw [if_pos hname, ih hadd, List.foldl_cons]
    · rw [if_neg hname, h] at hadd
      rw [if_neg hname, ih hadd]

/-- The class is the values given for it, merged from left to right. -/
theorem get?_class_addAll {attrs : Entries String} (h : attrs.get? "class" = none)
    {given : List Assignment} {raw : List Char} {raws : List (List Char)}
    (hvalues : classValues given = raw :: raws) :
    (addAll attrs given).get? "class" = some (String.ofList (raws.foldl mergeClass raw)) := by
  induction given generalizing attrs with
  | nil => cases hvalues
  | cons a given ih =>
    have hadd := get?_class_addAttr attrs a.1 a.2
    rw [classValues_cons] at hvalues
    rw [addAll_cons]
    by_cases hname : a.1 = "class".toList
    · simp only [h, if_pos hname] at hadd
      rw [if_pos hname] at hvalues
      cases hvalues
      exact get?_class_addAll_of_some hadd given
    · rw [if_neg hname, h] at hadd
      rw [if_neg hname] at hvalues
      exact ih hadd hvalues

theorem get?_class_of_ofLine? {line : List Char} {t : Tag} (h : ofLine? line = some t)
    {raw : List Char} {raws : List (List Char)}
    (hvalues : classValues (givenAttrs line) = raw :: raws) :
    t.attrs.get? "class" = some (String.ofList (raws.foldl mergeClass raw)) := by
  rw [attrs_of_ofLine? h]
  exact get?_class_addAll rfl hvalues

/-! ## The order of the names -/

/-- Names in the order in which they were given first. -/
theorem names_addAll (given : List Assignment) :
    Entries.names (addAll [] given) = (given.map fun a => String.ofList a.1).eraseDups :=
  Entries.names_foldl_insert (fun attrs (a : Assignment) => addAttr attrs a.1 a.2)
    (fun a => String.ofList a.1) (fun _ _ => ⟨_, rfl⟩) given

theorem names_of_ofLine? {line : List Char} {t : Tag} (h : ofLine? line = some t) :
    Entries.names t.attrs = ((givenAttrs line).map fun a => String.ofList a.1).eraseDups := by
  rw [attrs_of_ofLine? h, names_addAll]

/-! ## The last value of a name -/

/-- The raw value that is given last for the name. -/
def lastGiven? (given : List Assignment) (n : String) : Option String :=
  (given.reverse.find? fun a => String.ofList a.1 == n).map fun a => String.ofList a.2

theorem lastGiven?_concat (given : List Assignment) (a : Assignment) (n : String) :
    lastGiven? (given ++ [a]) n =
      if String.ofList a.1 = n then some (String.ofList a.2) else lastGiven? given n := by
  rw [lastGiven?, List.reverse_append, List.reverse_singleton, List.singleton_append,
    List.find?_cons]
  by_cases h : String.ofList a.1 = n
  · simp [h]
  · have hb : (String.ofList a.1 == n) = false := by simpa using h
    rw [if_neg h, hb, lastGiven?]

theorem lastGiven?_class {given : List Assignment} (h : classValues given = []) :
    lastGiven? given "class" = none := by
  rw [lastGiven?, Option.map_eq_none_iff, List.find?_eq_none]
  intro a ha hclass
  rw [classValues, List.map_eq_nil_iff, List.filter_eq_nil_iff] at h
  apply h a (List.mem_reverse.mp ha)
  rw [beq_iff_eq] at hclass ⊢
  rw [← hclass, String.toList_ofList]

theorem addAttr_of_new {attrs : Entries String} {name : List Char}
    (h : name = "class".toList → attrs.get? "class" = none) (value : List Char) :
    addAttr attrs name value = Entries.insert (String.ofList name) (String.ofList value) attrs := by
  unfold addAttr
  dsimp only
  split
  · next old hold =>
    have hother : (String.ofList name == "class") = false := by
      rw [beq_eq_false_iff_ne]
      intro hclass
      rw [hclass, h (by rw [← hclass, String.toList_ofList])] at hold
      cases hold
    rw [hother]
    rfl
  · rfl

/-- With at most one class nothing is merged. -/
theorem get?_addAll {given : List Assignment} (h : (classValues given).length ≤ 1) (n : String) :
    (addAll [] given).get? n = lastGiven? given n := by
  induction given using List.reverseRecOn generalizing n with
  | nil => rfl
  | append_singleton given a ih =>
    have hsplit : classValues (given ++ [a]) = classValues given ++ classValues [a] := by
      simp [classValues]
    rw [hsplit, List.length_append] at h
    have ih := ih (by omega)
    have hnew : a.1 = "class".toList → (addAll [] given).get? "class" = none := by
      intro hclass
      have hone : (classValues [a]).length = 1 := by simp [classValues, hclass]
      rw [ih, lastGiven?_class (List.length_eq_zero_iff.mp (by omega))]
    have hadd : addAll [] (given ++ [a]) =
        Entries.insert (String.ofList a.1) (String.ofList a.2) (addAll [] given) := by
      rw [addAll_append]
      exact addAttr_of_new hnew a.2
    rw [hadd, Entries.get?_insert, lastGiven?_concat, ih]

end Stencil.Tag
