import Stencil.Expr.Function
import Stencil.Proofs.Text.Pieces

/-!
Splitting, joining and replacing.

A text is split at a separator, or between all of its characters if that is empty (`splitParts`);
either way its parts with the separator between them are the text again. Replacing goes through the
text by itself, from left to right (`Replaced`), and comes to joining the parts with the new text
between them. Each of the three can be called with its arguments in another order. Main statement:
`callFunction_split_join_replace`.
-/

namespace Stencil.Expr

/-! ## Parts -/

/-- The parts of a text between separators, or its characters if the separator is empty. -/
def splitParts (s sep : String) : List String :=
  if sep = "" then s.toList.map String.singleton
  else (pieces sep.toList s.toList).map String.ofList

theorem splitText_eq (s sep : String) :
    Function.splitText s sep = .list ((splitParts s sep).map .str) := by
  by_cases h : sep = "" <;> simp [Function.splitText, splitParts, h, Function.comp_def]

theorem intercalate_splitParts (s sep : String) : sep.intercalate (splitParts s sep) = s := by
  rw [← String.toList_inj, String.toList_intercalate, splitParts]
  split
  · next hsep =>
    subst hsep
    have hall (cs : List Char) : [].intercalate (cs.map fun c => [c]) = cs := by
      induction cs with
      | nil => rfl
      | cons c cs ih => cases cs <;> simp_all [List.intercalate]
    simpa [Function.comp_def] using hall s.toList
  · next hsep =>
    have hparts := intercalate_pieces (fun h => hsep (String.toList_eq_nil_iff.mp h)) s.toList
    simpa [Function.comp_def] using hparts

theorem not_infix_of_mem_splitParts {s sep part : String} (hsep : sep ≠ "")
    (h : part ∈ splitParts s sep) : ¬ sep.toList <:+: part.toList := by
  have hne : sep.toList ≠ [] := fun h => hsep (String.toList_eq_nil_iff.mp h)
  rw [splitParts, if_neg hsep] at h
  obtain ⟨p, hp, rfl⟩ := List.mem_map.mp h
  rw [String.toList_ofList]
  exact (partedBy_pieces hne s.toList).not_infix_of_mem hne p hp

theorem replaceAll_eq_intercalate {old : String} (hold : old ≠ "") (s new : String) :
    String.ofList (replaceAll old.toList new.toList s.toList) =
      new.intercalate (splitParts s old) := by
  rw [← String.toList_inj, String.toList_ofList, String.toList_intercalate, splitParts,
    if_neg hold, replaceAll]
  simp [hold, Function.comp_def]

/-- Of all texts, the parts joined by `new` is the one in which every occurrence is replaced. -/
theorem replaced_iff {old : String} (hold : old ≠ "") (s new u : String) :
    Replaced old.toList new.toList s.toList u.toList ↔ u = new.intercalate (splitParts s old) := by
  have hne : old.toList ≠ [] := fun h => hold (String.toList_eq_nil_iff.mp h)
  have hreplaced := replaced_replaceAll hne new.toList s.toList
  rw [← replaceAll_eq_intercalate hold]
  constructor
  · intro hu
    rw [← String.toList_inj, String.toList_ofList]
    exact hu.unique hne hreplaced
  · rintro rfl
    rwa [String.toList_ofList]

/-! ## Calls -/

theorem elementTexts_of_entries? {v : Value} {entries : List (Value × Value)}
    (h : v.entries? = some entries) :
    Function.elementTexts v = entries.map fun (_, e) => e.text := by
  rw [Function.elementTexts, h]

/-- A collection is no text, so it is not taken for the separator. -/
theorem callFunction_join_collection {v : Value} {entries : List (Value × Value)}
    (h : v.entries? = some entries) (sep : String) :
    let t := sep.intercalate (entries.map fun (_, e) => e.text)
    callFunction "join" [v, .str sep] = .ok (.str t) ∧
      callFunction "implode" [.str sep, v] = .ok (.str t) := by
  have htexts := elementTexts_of_entries? h
  rw [← htexts]
  cases v with
  | list items => exact ⟨rfl, rfl⟩
  | map entries => exact ⟨rfl, rfl⟩
  | _ => cases h

theorem map_text_indexed (parts : List String) :
    (Value.indexed (parts.map .str)).map (fun (_, e) => e.text) = parts := by
  have htexts : (Value.indexed (parts.map .str)).map (fun (_, e) => e.text) =
      ((Value.indexed (parts.map .str)).map (·.2)).map Value.text := by
    rw [List.map_map]
    rfl
  rw [htexts, Value.map_snd_indexed, List.map_map]
  exact List.map_id _

theorem callFunction_join_texts (parts : List String) (sep : String) :
    callFunction "join" [.list (parts.map .str), .str sep] =
      .ok (.str (sep.intercalate parts)) := by
  have hentries : (Value.list (parts.map .str)).entries? =
      some (Value.indexed (parts.map .str)) := rfl
  rw [(callFunction_join_collection hentries sep).1, map_text_indexed]

/-- **Splitting, joining and replacing fit together.** A text that is split at a separator, which
may be empty, and joined again by it is the text; no part contains a separator that is not empty. To
replace a text that is not empty is to join the parts between its occurrences by the new text, and
this is the one text in which every occurrence found from left to right is replaced; to replace the
empty text changes nothing. The forms with the arguments in another order, called by their own
names, give the same, joining for every list and map. -/
theorem callFunction_split_join_replace :
    (∀ s sep : String, ∃ parts : List String,
      callFunction "split" [.str s, .str sep] = .ok (.list (parts.map .str)) ∧
      callFunction "explode" [.str sep, .str s] = .ok (.list (parts.map .str)) ∧
      callFunction "join" [.list (parts.map .str), .str sep] = .ok (.str s) ∧
      (sep ≠ "" →
        (∀ part ∈ parts, ¬ sep.toList <:+: part.toList) ∧
        ∀ new : String, ∃ t : String,
          callFunction "replace" [.str s, .str sep, .str new] = .ok (.str t) ∧
          callFunction "join" [.list (parts.map .str), .str new] = .ok (.str t) ∧
          ∀ u : String, Replaced sep.toList new.toList s.toList u.toList ↔ u = t)) ∧
    (∀ s new : String, callFunction "replace" [.str s, .str "", .str new] = .ok (.str s)) ∧
    (∀ (v : Value) (entries : List (Value × Value)) (sep : String), v.entries? = some entries →
      let t := sep.intercalate (entries.map fun (_, e) => e.text)
      callFunction "join" [v, .str sep] = .ok (.str t) ∧
        callFunction "implode" [.str sep, v] = .ok (.str t)) ∧
    ∀ search new subject : Value,
      callFunction "str_replace" [search, new, subject] =
        callFunction "replace" [subject, search, new] := by
  refine ⟨fun s sep => ?parts, fun s new => ?empty, fun v entries sep h => ?collection,
    fun search new subject => rfl⟩
  case empty =>
    have hreplace : callFunction "replace" [.str s, .str "", .str new] =
        .ok (.str (String.ofList s.toList)) := rfl
    rw [hreplace, String.ofList_toList]
  case collection => exact callFunction_join_collection h sep
  case parts =>
    have hsplit : callFunction "split" [.str s, .str sep] =
        .ok (.list ((splitParts s sep).map .str)) := congrArg Except.ok (splitText_eq s sep)
    refine ⟨splitParts s sep, hsplit, hsplit, ?_, fun hsep => ⟨?_, fun new => ?_⟩⟩
    · rw [callFunction_join_texts, intercalate_splitParts]
    · exact fun part => not_infix_of_mem_splitParts hsep
    · have hreplace : callFunction "replace" [.str s, .str sep, .str new] =
          .ok (.str (String.ofList (replaceAll sep.toList new.toList s.toList))) := rfl
      rw [replaceAll_eq_intercalate hsep] at hreplace
      exact ⟨_, hreplace, callFunction_join_texts _ _, replaced_iff hsep s new⟩

/-- A separator that overlaps itself, and a map. -/
theorem callFunction_split_join_replace_overlap :
    ("aa" ≠ "" ∧ (Value.map [("x", .int 1), ("y", .null)]).entries? =
      some [(.str "x", .int 1), (.str "y", .null)]) ∧
    (∃ parts : List String,
      callFunction "split" [.str "aaab", .str "aa"] = .ok (.list (parts.map .str)) ∧
      (∀ part ∈ parts, ¬ "aa".toList <:+: part.toList) ∧
      callFunction "join" [.list (parts.map .str), .str "-"] = .ok (.str "-ab")) ∧
    callFunction "implode" [.str ";", .map [("x", .int 1), ("y", .null)]] = .ok (.str "1;") := by
  have hsep : "aa" ≠ "" := by decide
  have hentries : (Value.map [("x", .int 1), ("y", .null)]).entries? =
    some [(.str "x", .int 1), (.str "y", .null)] := rfl
  obtain ⟨hparts, -, hcollection, -⟩ := callFunction_split_join_replace
  obtain ⟨parts, hsplit, -, -, hrest⟩ := hparts "aaab" "aa"
  obtain ⟨hnone, hreplace⟩ := hrest hsep
  obtain ⟨t, ht, hjoin, -⟩ := hreplace "-"
  have hvalue : (.ok (.str t) : Except EvalError Value) = .ok (.str "-ab") := ht.symm.trans rfl
  cases hvalue
  exact ⟨⟨hsep, hentries⟩, ⟨parts, hsplit, hnone, hjoin⟩, (hcollection _ _ ";" hentries).2⟩

end Stencil.Expr
