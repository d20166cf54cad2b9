import Stencil.Host.HostValue

/-!
Two ways from host data to a value.

Data of the standard types turns into a value directly, as a `HostValue`, and through what it says
about itself, as an `Emission`. Both ways lead to the same value (`toValue_emission`), so it does
not matter which of them a context is filled by.

Only sorted maps need an argument. One way converts their values and then sorts the entries, the
other sorts first and then adds one converted entry after the other. Sorting looks at the keys alone
and so commutes with the conversion (`inKeyOrder_map`), and adding entries whose keys are all
different changes nothing about them (`insertAll_of_nodup`).
-/

namespace Stencil

/-- Data of the standard types of a host. -/
inductive PlainData where
  | bool (b : Bool)
  /-- A signed integer of at most sixty-four bits. -/
  | signed (n : Int64)
  /-- An unsigned integer of at most sixty-four bits. -/
  | unsigned (n : UInt64)
  | single (x : Float32)
  | double (x : Float)
  | char (c : Char)
  | str (s : String)
  | unit
  | none
  | some (d : PlainData)
  | vector (items : List PlainData)
  /-- A list whose length belongs to its type. -/
  | array (items : List PlainData)
  /-- A map that was filled by these insertions and gives its entries in the order of the keys. -/
  | sortedMap (insertions : List (String × PlainData))

/-- The entries that are left of a list of insertions, in the order of their keys. -/
def inKeyOrder {α : Type} (insertions : List (String × α)) : Entries α :=
  (Entries.ofList insertions).mergeSort fun a b =>
    (Value.textOrder a.1.toList b.1.toList).isLE

namespace PlainData

mutual

/-- The data as a typed value of the host. -/
def hostValue : PlainData → HostValue
  | bool b => .bool b
  | signed n => .integer n.toInt
  | unsigned n => .integer n.toNat
  | single x => .single x
  | double x => .double x
  | char c => .char c
  | str s => .str s
  | unit => .unit
  | none => .none
  | some d => .some (hostValue d)
  | vector items | array items => .list (hostItems items)
  | sortedMap insertions => .sortedMap (hostEntries insertions)

def hostItems : List PlainData → List HostValue
  | [] => []
  | d :: ds => hostValue d :: hostItems ds

def hostEntries : List (String × PlainData) → List (String × HostValue)
  | [] => []
  | (k, d) :: rest => (k, hostValue d) :: hostEntries rest

end

mutual

/-- What the data says about itself. -/
def emission : PlainData → Emission
  | bool b => .bool b
  | signed n => .signed n
  | unsigned n => .unsigned n
  | single x => .single x
  | double x => .double x
  | char c => .char c
  | str s => .str s
  | unit => .unit
  | none => .none
  | some d => .some (emission d)
  | vector items => .sequence (emissionItems items)
  | array items => .tuple (emissionItems items)
  | sortedMap insertions =>
    .map ((inKeyOrder (emissionEntries insertions)).map fun (k, e) => (.str k, e))

def emissionItems : List PlainData → List Emission
  | [] => []
  | d :: ds => emission d :: emissionItems ds

def emissionEntries : List (String × PlainData) → List (String × Emission)
  | [] => []
  | (k, d) :: rest => (k, emission d) :: emissionEntries rest

end

end PlainData

/-! ## Entries and their keys -/

theorem Entries.insert_map {α β : Type} (f : α → β) (name : String) (v : α) (entries : Entries α) :
    (Entries.insert name v entries).map (Prod.map id f) =
      Entries.insert name (f v) (entries.map (Prod.map id f)) := by
  induction entries with
  | nil => rfl
  | cons e rest ih =>
    obtain ⟨n, w⟩ := e
    simp only [Entries.insert, List.map_cons, Prod.map_apply, id_eq]
    split
    · rfl
    · rw [List.map_cons, ih]
      rfl

theorem Entries.insertAll_map {α β : Type} (f : α → β) (entries : Entries α)
    (more : List (String × α)) :
    (Entries.insertAll entries more).map (Prod.map id f) =
      Entries.insertAll (entries.map (Prod.map id f)) (more.map (Prod.map id f)) := by
  induction more generalizing entries with
  | nil => rfl
  | cons e more ih =>
    have hstep := ih (Entries.insert e.1 e.2 entries)
    rw [Entries.insert_map] at hstep
    exact hstep

/-- What the entries stand for makes no difference to their order. -/
theorem inKeyOrder_map {α β : Type} (f : α → β) (insertions : List (String × α)) :
    (inKeyOrder insertions).map (Prod.map id f) = inKeyOrder (insertions.map (Prod.map id f)) := by
  rw [inKeyOrder, inKeyOrder, Entries.ofList, Entries.ofList,
    ← List.map_nil (f := Prod.map id f), ← Entries.insertAll_map]
  exact List.map_mergeSort fun _ _ _ _ => rfl

theorem nodup_names_inKeyOrder {α : Type} (insertions : List (String × α)) :
    (Entries.names (inKeyOrder insertions)).Nodup := by
  have hperm := (List.mergeSort_perm (Entries.ofList insertions) fun a b =>
    (Value.textOrder a.1.toList b.1.toList).isLE).map Prod.fst
  exact hperm.nodup_iff.mpr (Entries.nodup_names_ofList insertions)

/-- A new name goes to the end. -/
theorem Entries.insert_of_not_mem {α : Type} {entries : Entries α} {name : String}
    (h : name ∉ Entries.names entries) (v : α) :
    Entries.insert name v entries = entries ++ [(name, v)] := by
  induction entries with
  | nil => rfl
  | cons e rest ih =>
    obtain ⟨n, w⟩ := e
    rw [Entries.names, List.map_cons, List.mem_cons, not_or] at h
    have hn : (n == name) = false := by simpa using Ne.symm h.1
    rw [Entries.insert, hn, if_neg Bool.false_ne_true, ih h.2, List.cons_append]

theorem Entries.insertAll_of_nodup {α : Type} {entries : Entries α} {more : List (String × α)}
    (h : (Entries.names (entries ++ more)).Nodup) :
    Entries.insertAll entries more = entries ++ more := by
  induction more generalizing entries with
  | nil => exact (List.append_nil entries).symm
  | cons e more ih =>
    obtain ⟨n, v⟩ := e
    have hnew : n ∉ Entries.names entries := by
      rw [Entries.names, List.map_append] at h
      intro hmem
      exact (List.nodup_append.mp h).2.2 n hmem n (List.mem_cons_self ..) rfl
    have hsplit : entries ++ (n, v) :: more = (entries ++ [(n, v)]) ++ more := by simp
    have hstep : Entries.insertAll entries ((n, v) :: more) =
        Entries.insertAll (Entries.insert n v entries) more := rfl
    rw [hsplit] at h
    rw [hstep, Entries.insert_of_not_mem hnew, ih h, hsplit]

/-! ## Agreement -/

theorem ofInteger_toInt (n : Int64) : Emission.ofInteger n.toInt = .int n := by
  rw [Emission.ofInteger, fit?_toInt]

/-- A map collects its entries if each of their values can be converted. -/
theorem Emission.entriesToValues_eq {pairs : List (String × Emission)} {values : Entries Value}
    (h : pairs.map (Prod.map id Emission.toValue) = values.map (Prod.map id Except.ok))
    (done : Entries Value) :
    Emission.entriesToValues done (pairs.map fun (k, e) => (.str k, e)) =
      .ok (Entries.insertAll done values) := by
  induction pairs generalizing values done with
  | nil =>
    obtain rfl : values = [] := by simpa using h.symm
    rfl
  | cons p pairs ih =>
    obtain ⟨k, e⟩ := p
    cases values with
    | nil => cases h
    | cons w values =>
      obtain ⟨k', v⟩ := w
      simp only [List.map_cons, Prod.map_apply, id_eq, List.cons.injEq, Prod.mk.injEq] at h
      obtain ⟨⟨rfl, he⟩, hrest⟩ := h
      have hkey : (Emission.str k).toValue = .ok (.str k) := by rw [Emission.toValue]
      rw [List.map_cons, Emission.entriesToValues, hkey]
      simp only [Emission.keyText?, Value.text, he]
      exact ih hrest _

theorem HostValue.entriesToValues_eq (done : Entries Value) (entries : List (String × HostValue)) :
    HostValue.entriesToValues done entries =
      Entries.insertAll done (entries.map (Prod.map id HostValue.toValue)) := by
  induction entries generalizing done with
  | nil => rw [HostValue.entriesToValues]; rfl
  | cons e entries ih =>
    obtain ⟨k, h⟩ := e
    rw [HostValue.entriesToValues, ih]
    rfl

namespace PlainData

/-- What the data says about itself is collected into the value that it turns into directly. -/
def Agrees (d : PlainData) : Prop := d.emission.toValue = .ok d.hostValue.toValue

theorem agrees_items {ds : List PlainData} (h : ∀ d ∈ ds, d.Agrees) :
    Emission.itemsToValues (emissionItems ds) = .ok (HostValue.itemsToValues (hostItems ds)) := by
  induction ds with
  | nil => rw [emissionItems, hostItems, Emission.itemsToValues, HostValue.itemsToValues]
  | cons d ds ih =>
    have hd : d.emission.toValue = .ok d.hostValue.toValue := h d (List.mem_cons_self ..)
    have hds := ih fun d' hd' => h d' (List.mem_cons_of_mem _ hd')
    rw [emissionItems, hostItems, Emission.itemsToValues, HostValue.itemsToValues, hd, hds]

theorem agrees_entries {entries : List (String × PlainData)} (h : ∀ e ∈ entries, e.2.Agrees) :
    (emissionEntries entries).map (Prod.map id Emission.toValue) =
      ((hostEntries entries).map (Prod.map id HostValue.toValue)).map (Prod.map id Except.ok) := by
  induction entries with
  | nil => rfl
  | cons e entries ih =>
    obtain ⟨k, d⟩ := e
    have hd : d.emission.toValue = .ok d.hostValue.toValue := h (k, d) (List.mem_cons_self ..)
    have hentries := ih fun e he => h e (List.mem_cons_of_mem _ he)
    rw [emissionEntries, hostEntries, List.map_cons, List.map_cons, List.map_cons, hentries,
      Prod.map_apply, hd]
    rfl

/-- One way sorts the entries of a map before it converts them, the other one after. -/
theorem agrees_sortedMap {insertions : List (String × PlainData)}
    (h : ∀ e ∈ insertions, e.2.Agrees) : (sortedMap insertions).Agrees := by
  have hsorted := congrArg inKeyOrder (agrees_entries h)
  rw [← inKeyOrder_map, ← inKeyOrder_map] at hsorted
  rw [Agrees, emission, hostValue, Emission.toValue, HostValue.toValue,
    Emission.entriesToValues_eq hsorted, HostValue.entriesToValues_eq,
    Entries.insertAll_of_nodup (nodup_names_inKeyOrder _)]
  rfl

/-- **Both ways lead to the same value.** What data of the standard types says about itself is
collected without an error, into the value that the data turns into directly. -/
theorem toValue_emission (d : PlainData) : d.emission.toValue = .ok d.hostValue.toValue := by
  cases d with
  | signed n => rw [emission, hostValue, Emission.toValue, HostValue.toValue, ofInteger_toInt]
  | some d =>
    have hd := toValue_emission d
    rw [emission, hostValue, Emission.toValue, HostValue.toValue, hd]
  | vector items | array items =>
    have hitems := @agrees_items items fun d _ => toValue_emission d
    rw [emission, hostValue, Emission.toValue, HostValue.toValue, hitems]
  | sortedMap insertions => exact agrees_sortedMap fun (_, d) _ => toValue_emission d
  | _ => rw [emission, hostValue, Emission.toValue, HostValue.toValue]
termination_by sizeOf d
decreasing_by
  · decreasing_tactic
  · decreasing_tactic
  · decreasing_tactic
  · have hsize := List.sizeOf_lt_of_mem ‹_ ∈ insertions›
    rw [Prod.mk.sizeOf_spec] at hsize
    simp_wf
    omega

end PlainData

end Stencil
