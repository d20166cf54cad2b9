import Stencil.Host.Emission
import Stencil.Proofs.Value.Symmetry

/-!
What is collected from data that describes itself.

Collecting stops at the first thing that cannot be a value. So it is described in two halves, each
of which goes through the whole data and knows nothing of the other: everything that is wrong, in
the order in which the data gives it (`faults`), and what each part comes to where nothing is wrong
(`reading`). The collector fails with the first fault and otherwise gives the reading
(`toValue_eq_answer`). No map that is collected has a key twice (`uniqueKeys_of_toValue`).
-/

namespace Stencil

namespace Emission

/-- Whether the data is neither null nor a collection. Options and wrappers are what they hold. -/
def isScalar : Emission → Bool
  | none | unit | emptyRecord => false
  | sequence _ | tuple _ | namedTuple _ | tupleVariant _ _ => false
  | map _ | mapParts _ | record _ | recordVariant _ _ => false
  | some e | wrapper e | wrapperVariant _ e => isScalar e
  | _ => true

/-- What is wrong about the data as a key, its own parts left aside. -/
def keyFault (k : Emission) : List EmissionError := if isScalar k then [] else [.keyNotScalar]

mutual

/-- Everything in the data that has no value, in the order in which the data gives it. -/
def faults : Emission → List EmissionError
  | wide s => [.unsupported s]
  | fail message => [.custom message]
  | some e | wrapper e | wrapperVariant _ e => faults e
  | sequence items | tuple items | namedTuple items | tupleVariant _ items => itemFaults items
  | map entries => entryFaults entries
  | mapParts parts => partFaults false parts
  | record fields | recordVariant _ fields => fieldFaults fields
  | _ => []

def itemFaults : List Emission → List EmissionError
  | [] => []
  | e :: es => faults e ++ itemFaults es

def entryFaults : List (Emission × Emission) → List EmissionError
  | [] => []
  | (k, e) :: rest => faults k ++ keyFault k ++ faults e ++ entryFaults rest

/-- A value takes the key that was given before it, unless another value took it. -/
def partFaults (pending : Bool) : List (MapPart Emission) → List EmissionError
  | [] => []
  | .key k :: rest => faults k ++ keyFault k ++ partFaults true rest
  | .value e :: rest =>
    faults e ++ (if pending then [] else [.missingKey]) ++ partFaults false rest

def fieldFaults : List (String × Emission) → List EmissionError
  | [] => []
  | (_, e) :: rest => faults e ++ fieldFaults rest

end

mutual

/-- The value of data without faults, each part by itself. -/
def reading : Emission → Value
  | bool b => .bool b
  | signed n => .int n
  | unsigned n => ofInteger n.toNat
  | single x => .float x.toFloat
  | double x => .float x
  | char c => .str (String.singleton c)
  | str s => .str s
  | bytes bs => .str (String.ofList (Utf8.readLossy bs))
  | emptyVariant name => .str name
  | none | unit | emptyRecord | wide _ | fail _ => .null
  | some e | wrapper e | wrapperVariant _ e => reading e
  | sequence items | tuple items | namedTuple items | tupleVariant _ items =>
    .list (itemReadings items)
  | map entries => .map (Entries.lastOfEach (entryReadings entries))
  | mapParts parts => .map (Entries.lastOfEach (partReadings .none parts))
  | record fields | recordVariant _ fields => .map (Entries.lastOfEach (fieldReadings fields))

def itemReadings : List Emission → List Value
  | [] => []
  | e :: es => reading e :: itemReadings es

def entryReadings : List (Emission × Emission) → List (String × Value)
  | [] => []
  | (k, e) :: rest => ((reading k).text, reading e) :: entryReadings rest

def partReadings (pending : Option Value) : List (MapPart Emission) → List (String × Value)
  | [] => []
  | .key k :: rest => partReadings (.some (reading k)) rest
  | .value e :: rest =>
    (pending.map fun k => (k.text, reading e)).toList ++ partReadings .none rest

def fieldReadings : List (String × Emission) → List (String × Value)
  | [] => []
  | (name, e) :: rest => (name, reading e) :: fieldReadings rest

end

/-! ## Fault or value -/

/-- The first fault, or the value if there is none. -/
def answer {α : Type} (faults : List EmissionError) (a : α) : Except EmissionError α :=
  match faults with
  | [] => .ok a
  | err :: _ => .error err

theorem keyText?_ofInteger (n : Int) : keyText? (ofInteger n) = .some (ofInteger n).text := by
  unfold ofInteger
  split
  · rfl
  · rfl

/-- The value of a scalar has a text as a key, that of other data has none. -/
theorem keyText?_reading (k : Emission) (h : k.faults = []) :
    keyText? k.reading = if k.isScalar then .some k.reading.text else .none := by
  cases k with
  | some k => exact keyText?_reading k h
  | wrapper k => exact keyText?_reading k h
  | wrapperVariant name k => exact keyText?_reading k h
  | unsigned n => exact keyText?_ofInteger _
  | wide s => cases h
  | fail message => cases h
  | _ => rfl

mutual

theorem toValue_eq_answer : ∀ e : Emission, e.toValue = answer e.faults e.reading
  | .some e | .wrapper e | .wrapperVariant _ e => by
    rw [toValue, toValue_eq_answer e, faults, reading]
  | .sequence items | .tuple items | .namedTuple items | .tupleVariant _ items => by
    rw [toValue, itemsToValues_eq_answer items, faults, reading]
    cases itemFaults items <;> rfl
  | .map entries => by
    rw [toValue, entriesToValues_eq_answer [] entries, faults, reading,
      ← Entries.ofList_eq_lastOfEach]
    cases entryFaults entries <;> rfl
  | .mapParts parts => by
    have hparts : partsToValues .none [] parts =
        answer (partFaults false parts) (Entries.insertAll [] (partReadings .none parts)) :=
      partsToValues_eq_answer .none [] parts
    rw [toValue, hparts, faults, reading, ← Entries.ofList_eq_lastOfEach]
    cases partFaults false parts <;> rfl
  | .record fields | .recordVariant _ fields => by
    rw [toValue, fieldsToValues_eq_answer [] fields, faults, reading,
      ← Entries.ofList_eq_lastOfEach]
    cases fieldFaults fields <;> rfl
  | .bool _ | .signed _ | .unsigned _ | .wide _ | .single _ | .double _ | .char _ | .str _
  | .bytes _ | .none | .unit | .emptyRecord | .emptyVariant _ | .fail _ => rfl

theorem itemsToValues_eq_answer :
    ∀ es : List Emission, itemsToValues es = answer (itemFaults es) (itemReadings es)
  | [] => rfl
  | e :: es => by
    rw [itemsToValues, toValue_eq_answer e, itemsToValues_eq_answer es, itemFaults, itemReadings]
    cases faults e with
    | cons err errs => rfl
    | nil => cases itemFaults es <;> rfl

theorem entriesToValues_eq_answer (done : Entries Value) :
    ∀ entries : List (Emission × Emission), entriesToValues done entries =
      answer (entryFaults entries) (Entries.insertAll done (entryReadings entries))
  | [] => rfl
  | (k, e) :: rest => by
    rw [entriesToValues, toValue_eq_answer k, toValue_eq_answer e, entryFaults, entryReadings]
    cases hk : faults k with
    | cons err errs => rfl
    | nil =>
      dsimp only [answer]
      rw [keyText?_reading k hk, keyFault]
      cases isScalar k with
      | false => rfl
      | true =>
        cases faults e with
        | cons err errs => rfl
        | nil => exact entriesToValues_eq_answer _ rest

theorem partsToValues_eq_answer (pending : Option Value) (done : Entries Value) :
    ∀ parts : List (MapPart Emission), partsToValues (pending.map Value.text) done parts =
      answer (partFaults pending.isSome parts) (Entries.insertAll done (partReadings pending parts))
  | [] => rfl
  | .key k :: rest => by
    rw [partsToValues, toValue_eq_answer k, partFaults, partReadings]
    cases hk : faults k with
    | cons err errs => rfl
    | nil =>
      dsimp only [answer]
      rw [keyText?_reading k hk, keyFault]
      cases isScalar k with
      | false => rfl
      | true => exact partsToValues_eq_answer (.some (reading k)) done rest
  | .value e :: rest => by
    rw [partsToValues, toValue_eq_answer e, partFaults, partReadings]
    cases faults e with
    | cons err errs => rfl
    | nil =>
      cases pending with
      | none => rfl
      | some k => exact partsToValues_eq_answer .none _ rest

theorem fieldsToValues_eq_answer (done : Entries Value) :
    ∀ fields : List (String × Emission), fieldsToValues done fields =
      answer (fieldFaults fields) (Entries.insertAll done (fieldReadings fields))
  | [] => rfl
  | (name, e) :: rest => by
    rw [fieldsToValues, toValue_eq_answer e, fieldFaults, fieldReadings]
    cases faults e with
    | cons err errs => rfl
    | nil => exact fieldsToValues_eq_answer _ rest

end

/-! ## Keys of what was collected -/

theorem uniqueKeys_lastOfEach {pairs : List (String × Value)}
    (h : ∀ p ∈ pairs, p.2.UniqueKeys) : (Value.map (Entries.lastOfEach pairs)).UniqueKeys := by
  rw [Value.uniqueKeys_map, ← Entries.ofList_eq_lastOfEach]
  refine ⟨Entries.nodup_names_ofList pairs, ?_⟩
  rintro ⟨n, v⟩ hmem
  have hget : (Entries.ofList pairs).get? n = .some v :=
    (Entries.get?_eq_some_iff (Entries.nodup_names_ofList pairs)).mpr hmem
  rw [Entries.ofList, Entries.get?_insertAll, List.append_nil] at hget
  exact h (n, v) (List.mem_reverse.mp (Entries.mem_of_get? hget))

theorem uniqueKeys_ofInteger (n : Int) : (ofInteger n).UniqueKeys := by
  unfold ofInteger
  split <;> exact Value.uniqueKeys_of_entries? rfl

mutual

theorem uniqueKeys_reading : ∀ e : Emission, e.reading.UniqueKeys
  | .some e | .wrapper e | .wrapperVariant _ e => by
    rw [reading]
    exact uniqueKeys_reading e
  | .sequence items | .tuple items | .namedTuple items | .tupleVariant _ items => by
    rw [reading, Value.uniqueKeys_list]
    exact uniqueKeys_itemReadings items
  | .map entries => by
    rw [reading]
    exact uniqueKeys_lastOfEach (uniqueKeys_entryReadings entries)
  | .mapParts parts => by
    rw [reading]
    exact uniqueKeys_lastOfEach (uniqueKeys_partReadings .none parts)
  | .record fields | .recordVariant _ fields => by
    rw [reading]
    exact uniqueKeys_lastOfEach (uniqueKeys_fieldReadings fields)
  | .unsigned n => uniqueKeys_ofInteger _
  | .bool _ | .signed _ | .wide _ | .single _ | .double _ | .char _ | .str _ | .bytes _ | .none
  | .unit | .emptyRecord | .emptyVariant _ | .fail _ => Value.uniqueKeys_of_entries? rfl

theorem uniqueKeys_itemReadings : ∀ es : List Emission, ∀ v ∈ itemReadings es, v.UniqueKeys
  | [] => nofun
  | e :: es => List.forall_mem_cons.mpr ⟨uniqueKeys_reading e, uniqueKeys_itemReadings es⟩

theorem uniqueKeys_entryReadings :
    ∀ entries : List (Emission × Emission), ∀ p ∈ entryReadings entries, p.2.UniqueKeys
  | [] => nofun
  | (_, e) :: rest => List.forall_mem_cons.mpr ⟨uniqueKeys_reading e, uniqueKeys_entryReadings rest⟩

theorem uniqueKeys_partReadings (pending : Option Value) :
    ∀ parts : List (MapPart Emission), ∀ p ∈ partReadings pending parts, p.2.UniqueKeys
  | [] => nofun
  | .key k :: rest => uniqueKeys_partReadings (.some (reading k)) rest
  | .value e :: rest => by
    have hrest := uniqueKeys_partReadings .none rest
    cases pending with
    | none => exact hrest
    | some k => exact List.forall_mem_cons.mpr ⟨uniqueKeys_reading e, hrest⟩

theorem uniqueKeys_fieldReadings :
    ∀ fields : List (String × Emission), ∀ p ∈ fieldReadings fields, p.2.UniqueKeys
  | [] => nofun
  | (_, e) :: rest => List.forall_mem_cons.mpr ⟨uniqueKeys_reading e, uniqueKeys_fieldReadings rest⟩

end

theorem uniqueKeys_of_toValue {e : Emission} {v : Value} (h : e.toValue = .ok v) :
    v.UniqueKeys := by
  rw [toValue_eq_answer] at h
  cases hfaults : e.faults with
  | nil =>
    rw [hfaults] at h
    cases h
    exact uniqueKeys_reading e
  | cons err errs =>
    rw [hfaults] at h
    cases h

/-- **Data is collected unless something in it is at fault.** Collecting fails if and only if there
is a fault anywhere, with the first one in the order of emission; otherwise every part keeps its
shape, and a map has each key once, at its first place and with its last value. The value is a
context if and only if it is a map, and then the context has just its entries. -/
theorem collected_iff (e : Emission) :
    ((∃ err, e.toValue = .error err) ↔ ∃ err, err ∈ e.faults) ∧
    (∀ err, e.toValue = .error err ↔ e.faults.head? = .some err) ∧
    (∀ v, e.toValue = .ok v ↔ e.faults = [] ∧ v = e.reading) ∧
    ∀ c, Context.ofEmission e = .ok c ↔ e.toValue = .ok (.map c.entries) := by
  refine ⟨?_, ?_, ?_, ?_⟩
  · rw [toValue_eq_answer]
    cases e.faults with
    | nil => simp [answer]
    | cons err errs => simp [answer]
  · intro err
    rw [toValue_eq_answer]
    cases e.faults with
    | nil => simp [answer]
    | cons err' errs => simp [answer]
  · intro v
    rw [toValue_eq_answer]
    cases e.faults with
    | nil => simp [answer, eq_comm]
    | cons err errs => simp [answer]
  · intro c
    unfold Context.ofEmission
    split
    · next err h => simp [h]
    · next entries h =>
      rw [h]
      constructor
      · rintro ⟨⟩
        rfl
      · rintro ⟨⟩
        rfl
    · next v hmap h =>
      rw [h]
      constructor
      · nofun
      · rintro ⟨⟩
        exact absurd rfl (hmap _)

/-- The value is looked at before its key is missed, and one key serves one value. -/
example : (mapParts [.key (.signed 1), .value .unit, .value (.wide true)]).toValue =
    .error (.unsupported true) := rfl

end Emission

end Stencil
