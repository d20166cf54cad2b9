import Stencil.Proofs.Entries
import Stencil.Proofs.Expr.Safety
import Stencil.Proofs.Render.Loops

/-!
The views of a collection.

Its keys, its elements, their number, the first and the last of them, what an index gives and what a
loop binds are each found in another way. They all show the same entries in the same order
(`views_of_entries?`, `renderNodes_pairs`). An index finds what stands at its place, counted from
the end below zero, and nothing outside (`IndexedBy`); for characters of a text it is the same. Main
statement: `views_agree`.
-/

namespace Stencil

open Stencil.Expr (callFunction indexValue)
open Stencil.Expr.Function (picked)

/-- A list, or a map that has no key twice. -/
inductive Value.IsCollection : Value → Prop
  | list (items : List Value) : IsCollection (.list items)
  | map {entries : List (String × Value)} (h : (Entries.names entries).Nodup) :
      IsCollection (.map entries)

/-- Integers index the items: from the start, from the end below zero, and nothing outside. -/
structure IndexedBy (v : Value) (items : List Value) : Prop where
  fromStart : ∀ (k : Int64) (i : Nat) (h : i < items.length), k.toInt = i →
    indexValue v (.int k) = items[i]
  fromEnd : ∀ (k : Int64) (i : Nat) (h : i < items.length), k.toInt = i - items.length →
    indexValue v (.int k) = items[i]
  outside : ∀ k : Int64, k.toInt < -items.length ∨ items.length ≤ k.toInt →
    indexValue v (.int k) = .null

/-! ## Indices -/

/-- The place that an index counts to, from the start or from the end. -/
def countedPlace (k : Int64) (size : Nat) : Int :=
  if k.toInt < 0 then size + k.toInt else k.toInt

theorem placeOf?_int (k : Int64) (size : Nat) :
    Expr.Machine.placeOf? (.int k) size =
      if 0 ≤ countedPlace k size then some (countedPlace k size).toNat else none := rfl

theorem indexedBy_of_placeOf? {v : Value} {items : List Value}
    (h : ∀ k : Int64, indexValue v (.int k) =
      ((Expr.Machine.placeOf? (.int k) items.length).bind fun i => items[i]?).getD .null) :
    IndexedBy v items := by
  have hplace : ∀ (k : Int64) (i : Nat) (hi : i < items.length),
      countedPlace k items.length = i → indexValue v (.int k) = items[i] := by
    intro k i hi hk
    rw [h, placeOf?_int, hk, if_pos (Int.natCast_nonneg i), Int.toNat_natCast, Option.bind_some,
      List.getElem?_eq_getElem hi, Option.getD_some]
  refine ⟨fun k i hi hk => hplace k i hi ?_, fun k i hi hk => hplace k i hi ?_, fun k hk => ?_⟩
  · rw [countedPlace, if_neg (by omega), hk]
  · rw [countedPlace, if_pos (by omega)]
    omega
  · have houtside : countedPlace k items.length < 0 ∨
        items.length ≤ (countedPlace k items.length).toNat := by
      unfold countedPlace
      split <;> omega
    rw [h, placeOf?_int]
    rcases houtside with hbelow | habove
    · rw [if_neg (Int.not_le.mpr hbelow)]
      rfl
    · split
      · rw [Option.bind_some, List.getElem?_eq_none habove, Option.getD_none]
      · rfl

theorem indexedBy_list (items : List Value) : IndexedBy (.list items) items :=
  indexedBy_of_placeOf? fun _ => rfl

theorem indexedBy_str (s : String) :
    IndexedBy (.str s) (s.toList.map fun c => .str (String.singleton c)) := by
  refine indexedBy_of_placeOf? fun k => ?_
  have hvalue : indexValue (.str s) (.int k) = Expr.Machine.charOrNull
      ((Expr.Machine.placeOf? (.int k) s.length).bind fun i => s.toList[i]?) := rfl
  rw [hvalue, List.length_map, String.length_toList]
  cases Expr.Machine.placeOf? (.int k) s.length with
  | none => rfl
  | some i =>
    rw [Option.bind_some, Option.bind_some, List.getElem?_map]
    cases s.toList[i]? <;> rfl

/-! ## Entries -/

section

variable {v : Value} {entries : List (Value × Value)}

theorem picked_of_entries? {pick : {α : Type} → List α → Option α}
    (hpick : ∀ (f : Value × Value → Value) xs, pick (xs.map f) = (pick xs).map f)
    (h : v.entries? = some entries) :
    picked pick v = (pick (entries.map (·.2))).getD .null := by
  have hentries : v.entriesOrNone = entries := by rw [Value.entriesOrNone, h, Option.getD_some]
  rw [hpick, ← hentries]
  cases v with
  | str s => cases h
  | _ =>
    rw [picked]
    · cases pick (Value.entriesOrNone _) <;> rfl
    · nofun

theorem size?_of_entries? (h : v.entries? = some entries) : v.size? = some entries.length := by
  cases v with
  | list items =>
    cases h
    simp [Value.size?, Value.indexed]
  | map entries =>
    cases h
    simp [Value.size?]
  | _ => cases h

theorem callFunction_count {size : Nat} (h : v.size? = some size) (hsize : size < 2 ^ 63) :
    ∃ n : Int64, callFunction "count" [v] = .ok (.int n) ∧ n.toInt = size := by
  have hnull : v.isNull = false := by
    cases v with
    | null => cases h
    | _ => rfl
  have hcount : callFunction "count" [v] =
      .ok (.int (Int64.ofNat (if v.isNull then 0 else v.size?.getD 1))) := rfl
  rw [hnull, h] at hcount
  exact ⟨_, hcount, Int64.toInt_ofNat_of_lt hsize⟩

/-- The keys, the elements and what is at their ends, all taken from the entries. -/
theorem views_of_entries? (h : v.entries? = some entries) :
    let values := entries.map (·.2)
    callFunction "keys" [v] = .ok (.list (entries.map (·.1))) ∧
    callFunction "values" [v] = .ok (.list values) ∧
    callFunction "first" [v] = .ok (values.head?.getD .null) ∧
    callFunction "last" [v] = .ok (values.getLast?.getD .null) := by
  have hentries : v.entriesOrNone = entries := by rw [Value.entriesOrNone, h, Option.getD_some]
  have hkeys : callFunction "keys" [v] = .ok (.list (v.entriesOrNone.map (·.1))) := rfl
  have hvalues : callFunction "values" [v] = .ok (.list (v.entriesOrNone.map (·.2))) := rfl
  rw [hentries] at hkeys hvalues
  refine ⟨hkeys, hvalues, ?_, ?_⟩
  · exact congrArg Except.ok (picked_of_entries? (fun f xs => List.head?_map) h)
  · exact congrArg Except.ok (picked_of_entries? (fun f xs => List.getLast?_map) h)

/-- What stands under a key is what an index by this key gives. -/
theorem indexValue_key (hv : v.IsCollection) (h : v.entries? = some entries) {i : Nat}
    (hi : i < 2 ^ 63) {k w : Value} (hentry : entries[i]? = some (k, w)) : indexValue v k = w := by
  cases hv with
  | list items =>
    cases h
    rw [Value.getElem?_indexed] at hentry
    obtain ⟨u, hu, heq⟩ := Option.map_eq_some_iff.mp hentry
    cases heq
    obtain ⟨hlt, rfl⟩ := List.getElem?_eq_some_iff.mp hu
    exact (indexedBy_list items).fromStart _ i hlt (Int64.toInt_ofNat_of_lt hi)
  | @map entries hkeys =>
    cases h
    rw [List.getElem?_map] at hentry
    obtain ⟨⟨name, u⟩, hu, heq⟩ := Option.map_eq_some_iff.mp hentry
    cases heq
    have hget : Entries.get? entries name = some w :=
      (Entries.get?_eq_some_iff hkeys).mpr (List.mem_of_getElem? hu)
    show (Entries.get? entries name).getD .null = w
    rw [hget, Option.getD_some]

/-- A loop with two variables writes its body for one entry after the other. -/
theorem renderNodes_pairs (includer : Includer) (level : Nat) {kind : DirectiveKind}
    (hkind : kind = .forLoop ∨ kind = .foreachLoop) {args : String} (children : List Node)
    {c : Context} {header : LoopHeader} {key : String}
    (hheader : LoopHeader.ofText? args.toList = some header) (hkey : header.key = some key)
    (h : (Expr.evaluate header.iterable c).entries? = some entries) :
    renderNodes includer .closed [.mk level (.directive kind args) children] c =
      (textsIn (fun d => (renderNodes includer .closed children d).1)
        (entries.map fun (k, w) => (c.set key k).set header.value w), c) := by
  have hnil : renderNodes includer .closed [] = Rendering.emit "" := by rw [renderNodes]
  have hnodes : renderNodes includer .closed [.mk level (.directive kind args) children] =
      renderLoop args (renderNodes includer .closed children) ++ Rendering.emit "" := by
    funext c
    rw [renderNodes, ← hnil]
    rcases hkind with rfl | rfl <;> rfl
  have hbind : header.bind = fun k w c => (c.set key k).set header.value w := by
    unfold LoopHeader.bind
    rw [hkey]
  rw [hnodes, Rendering.append_emit_empty, renderLoop, hheader]
  simp only [h]
  rw [renderEntries_eq, Rendering.emit_empty_append,
    Rendering.concat_withEntry_apply (restores_renderNodes includer .closed children), hbind]

end

/-- **The views of a collection agree.** For every list, and every map that has no key twice: its
keys and its elements are equally many, and a loop with two variables binds the keys and the
elements, in the same order; the first and the last element are found at the ends, or null if there
are none. If it is no larger than a memory holds, their number is its count, and an index by a key
gives the element in the same place. A list is indexed by integers, as is a text with its characters
for elements. -/
theorem views_agree :
    (∀ v : Value, v.IsCollection → ∃ keys values : List Value,
      callFunction "keys" [v] = .ok (.list keys) ∧
      callFunction "values" [v] = .ok (.list values) ∧
      keys.length = values.length ∧
      (∀ (includer : Includer) (level : Nat) (kind : DirectiveKind) (args : String)
        (children : List Node) (c : Context) (header : LoopHeader) (key : String),
        kind = .forLoop ∨ kind = .foreachLoop → LoopHeader.ofText? args.toList = some header →
        header.key = some key → Expr.evaluate header.iterable c = v →
        renderNodes includer .closed [.mk level (.directive kind args) children] c =
          (textsIn (fun d => (renderNodes includer .closed children d).1)
            ((keys.zip values).map fun (k, w) => (c.set key k).set header.value w), c)) ∧
      callFunction "first" [v] = .ok (values.head?.getD .null) ∧
      callFunction "last" [v] = .ok (values.getLast?.getD .null) ∧
      (values.length < 2 ^ 63 →
        (∃ n : Int64, callFunction "count" [v] = .ok (.int n) ∧ n.toInt = values.length) ∧
        ∀ (i : Nat) (k w : Value), keys[i]? = some k → values[i]? = some w → indexValue v k = w) ∧
      ∀ items, v = .list items → values = items ∧ IndexedBy v items) ∧
    ∀ s : String, ∃ parts : List Value,
      callFunction "split" [.str s, .str ""] = .ok (.list parts) ∧ IndexedBy (.str s) parts ∧
      (parts.length < 2 ^ 63 →
        ∃ n : Int64, callFunction "count" [.str s] = .ok (.int n) ∧ n.toInt = parts.length) := by
  refine ⟨fun v hv => ?collection, fun s => ?text⟩
  case collection =>
    obtain ⟨entries, h⟩ : ∃ entries, v.entries? = some entries := by
      cases hv <;> exact ⟨_, rfl⟩
    obtain ⟨hkeys, hvalues, hfirst, hlast⟩ := views_of_entries? h
    have hlength : (entries.map (·.1)).length = (entries.map (·.2)).length := by simp
    have hzip : (entries.map (·.1)).zip (entries.map (·.2)) = entries :=
      (List.zip_of_prod rfl rfl).symm
    refine ⟨_, _, hkeys, hvalues, hlength, ?loop, hfirst, hlast, fun hsize => ⟨?count, ?index⟩,
      ?integers⟩
    case loop =>
      intro includer level kind args children c header key hkind hheader hkey hiterable
      rw [hzip]
      exact renderNodes_pairs includer level hkind children hheader hkey (by rw [hiterable, h])
    case count =>
      rw [List.length_map] at hsize ⊢
      exact callFunction_count (size?_of_entries? h) hsize
    case index =>
      intro i k w hk hw
      have hpair : entries[i]? = some (k, w) := by
        rw [← hzip]
        exact List.getElem?_zip_eq_some.mpr ⟨hk, hw⟩
      obtain ⟨hlt, -⟩ := List.getElem?_eq_some_iff.mp hw
      exact indexValue_key hv h (Nat.lt_trans hlt hsize) hpair
    case integers =>
      rintro items rfl
      cases h
      exact ⟨Value.map_snd_indexed items, indexedBy_list items⟩
  case text =>
    have hsplit : callFunction "split" [.str s, .str ""] =
        .ok (.list (s.toList.map fun c => .str (String.singleton c))) := rfl
    refine ⟨_, hsplit, indexedBy_str s, fun hsize => ?_⟩
    have hsize? : (Value.str s).size? = some s.length := rfl
    rw [List.length_map, String.length_toList] at hsize ⊢
    exact callFunction_count hsize? hsize

/-- A map whose keys are not in the order of the alphabet. A loop over it includes a file for each
entry, here with the key for its text, and an index by the second key gives the second element. The
second character of a text is its last. -/
theorem views_agree_map :
    let v := Value.map [("b", .int 1), ("a", .int 2)]
    let includer : Includer := fun _ d =>
      match d.get? "k" with
      | some (.str s) => .ok s
      | _ => .ok "?"
    let file : Node := .mk 1 (.directive .includeFile "a") []
    let c := Context.ofList [("v", v)]
    v.IsCollection ∧
    (renderNodes includer .closed [.mk 0 (.directive .forLoop "k, x in v") [file]] c).1 = .ok "ba" ∧
    (∃ n : Int64, callFunction "count" [v] = .ok (.int n) ∧ n.toInt = 2) ∧
    indexValue v (.str "a") = .int 2 ∧
    indexValue (.str "ab") (.int (-1)) = .str "b" := by
  intro v includer file c
  have hv : v.IsCollection := .map (by decide)
  obtain ⟨keys, values, hkeys, hvalues, -, hloop, -, -, hsized, -⟩ := views_agree.1 v hv
  obtain rfl : keys = [.str "b", .str "a"] :=
    Value.list.inj (Except.ok.inj (hkeys.symm.trans rfl))
  obtain rfl : values = [.int 1, .int 2] :=
    Value.list.inj (Except.ok.inj (hvalues.symm.trans rfl))
  obtain ⟨hcount, hindex⟩ := hsized (by decide)
  obtain ⟨parts, hparts, htext, -⟩ := views_agree.2 "ab"
  obtain rfl : parts = [.str "a", .str "b"] :=
    Value.list.inj (Except.ok.inj (hparts.symm.trans rfl))
  have hbody : ∀ d, (renderNodes includer .closed [file] d).1 =
      (includer "a" d).map (· ++ "") := by
    intro d
    rw [renderNodes, renderNodes]
    show (Rendering.append (fun c => (includer "a" c, c)) (Rendering.emit "") d).1 = _
    rw [Rendering.append]
    cases includer "a" d <;> rfl
  refine ⟨hv, ?_, hcount, hindex 1 _ _ rfl rfl, htext.fromEnd (-1) 1 (by decide) (by decide)⟩
  rw [hloop includer 0 .forLoop "k, x in v" [file] c ⟨some "k", "x", ['v']⟩ "k" (.inl rfl) rfl
    rfl rfl]
  simp only [hbody]
  rfl

end Stencil
