/-!
Named entries in the order of their insertion.

A list of pairs in which each name occurs once. `insert` keeps the place of a name that is already
there and puts a new name at the end; `erase` keeps the order of the others. Main statements:
`get?_insert` and `get?_erase`, each changes what one name stands for; `insert_of_get?` and
`erase_insert_of_get?_eq_none`, giving a name its own value or erasing a new one leaves the entries
and their order as they were; and `nodup_names_ofList`, a list built by insertions holds each name
once.
-/

namespace Stencil

abbrev Entries (α : Type) := List (String × α)

namespace Entries

variable {α β : Type}

def get? (entries : Entries α) (name : String) : Option α := List.lookup name entries

def contains (entries : Entries α) (name : String) : Bool := (entries.get? name).isSome

def insert (name : String) (value : α) : Entries α → Entries α
  | [] => [(name, value)]
  | (n, v) :: rest =>
    if n == name then (n, value) :: rest else (n, v) :: Entries.insert name value rest

def erase (entries : Entries α) (name : String) : Entries α := entries.filter (·.1 != name)

def insertAll (entries : Entries α) (more : List (String × α)) : Entries α :=
  more.foldl (fun es (n, v) => Entries.insert n v es) entries

def ofList (pairs : List (String × α)) : Entries α := insertAll [] pairs

def names (entries : Entries α) : List String := entries.map (·.1)

@[simp] theorem get?_nil (name : String) : get? ([] : Entries α) name = none := rfl

theorem get?_cons (n name : String) (v : α) (rest : Entries α) :
    get? ((n, v) :: rest) name = if n = name then some v else get? rest name := by
  rw [get?, List.lookup_cons]
  by_cases h : n = name
  · simp [h]
  · have hb : (name == n) = false := by simpa using fun h' => h h'.symm
    simp [hb, h, get?]

theorem get?_insert (entries : Entries α) (n name : String) (v : α) :
    (Entries.insert n v entries).get? name = if n = name then some v else entries.get? name := by
  induction entries with
  | nil => simp [Entries.insert, get?_cons]
  | cons e rest ih =>
    obtain ⟨m, w⟩ := e
    by_cases hm : m = n
    · subst hm
      simp only [Entries.insert, beq_self_eq_true, ↓reduceIte, get?_cons]
      split <;> simp_all
    · have : (m == n) = false := by simpa using hm
      simp only [Entries.insert, this, Bool.false_eq_true, ↓reduceIte, get?_cons, ih]
      by_cases hn : m = name
      · subst hn; simp [Ne.symm hm]
      · simp [hn]

theorem get?_erase (entries : Entries α) (n name : String) :
    (entries.erase n).get? name = if n = name then none else entries.get? name := by
  induction entries with
  | nil => simp [erase]
  | cons e rest ih =>
    obtain ⟨m, w⟩ := e
    by_cases hm : m = n
    · subst hm
      have : erase ((m, w) :: rest) m = erase rest m := by simp [erase]
      rw [this, ih, get?_cons]
      split <;> simp_all
    · have : erase ((m, w) :: rest) n = (m, w) :: erase rest n := by simp [erase, hm]
      rw [this, get?_cons, get?_cons, ih]
      by_cases hn : m = name
      · subst hn; simp [Ne.symm hm]
      · simp [hn]

theorem insert_insert (entries : Entries α) (n : String) (v w : α) :
    Entries.insert n w (Entries.insert n v entries) = Entries.insert n w entries := by
  induction entries with
  | nil => simp [Entries.insert]
  | cons e rest ih =>
    obtain ⟨m, u⟩ := e
    by_cases hm : m = n
    · simp [Entries.insert, hm]
    · have hb : (m == n) = false := by simpa using hm
      simp [Entries.insert, hb, ih]

theorem insert_of_get? {entries : Entries α} {n : String} {v : α} (h : entries.get? n = some v) :
    Entries.insert n v entries = entries := by
  induction entries with
  | nil => cases h
  | cons e rest ih =>
    obtain ⟨m, u⟩ := e
    rw [get?_cons] at h
    by_cases hm : m = n
    · rw [if_pos hm] at h
      cases h
      simp [Entries.insert, hm]
    · rw [if_neg hm] at h
      have hb : (m == n) = false := by simpa using hm
      simp [Entries.insert, hb, ih h]

theorem erase_of_get?_eq_none {entries : Entries α} {n : String} (h : entries.get? n = none) :
    entries.erase n = entries := by
  rw [erase, List.filter_eq_self]
  intro e he
  have hn : (n != e.1) = true := List.lookup_eq_none_iff.1 h e he
  rwa [bne_comm]

/-- Erasing a name that was new takes its entry off the end again. -/
theorem erase_insert_of_get?_eq_none {entries : Entries α} {n : String} (v : α)
    (h : entries.get? n = none) : (Entries.insert n v entries).erase n = entries := by
  induction entries with
  | nil => simp [Entries.insert, erase]
  | cons e rest ih =>
    obtain ⟨m, u⟩ := e
    rw [get?_cons] at h
    by_cases hm : m = n
    · rw [if_pos hm] at h
      cases h
    · rw [if_neg hm] at h
      have hb : (m == n) = false := by simpa using hm
      have ht := ih h
      rw [erase] at ht
      simp [Entries.insert, hb, erase, hm, ht]

theorem mem_of_get? {entries : Entries α} {n : String} {v : α} (h : entries.get? n = some v) :
    (n, v) ∈ entries := by
  induction entries with
  | nil => cases h
  | cons e rest ih =>
    obtain ⟨m, w⟩ := e
    rw [get?_cons] at h
    split at h
    · next hm =>
      cases h
      rw [hm]
      exact List.mem_cons_self ..
    · exact List.mem_cons_of_mem _ (ih h)

theorem mem_of_mem_insert {entries : Entries α} {n : String} {v : α} {e : String × α}
    (h : e ∈ Entries.insert n v entries) : e = (n, v) ∨ e ∈ entries := by
  induction entries with
  | nil => exact Or.inl (List.mem_singleton.mp h)
  | cons e' rest ih =>
    obtain ⟨m, w⟩ := e'
    rw [Entries.insert] at h
    split at h
    · next hm =>
      rw [beq_iff_eq] at hm
      rcases List.mem_cons.mp h with rfl | h
      · exact Or.inl (by rw [hm])
      · exact Or.inr (List.mem_cons_of_mem _ h)
    · rcases List.mem_cons.mp h with rfl | h
      · exact Or.inr (List.mem_cons_self ..)
      · exact (ih h).imp_right (List.mem_cons_of_mem _)

theorem mem_names_insert (entries : Entries α) (n name : String) (v : α) :
    name ∈ names (Entries.insert n v entries) ↔ name = n ∨ name ∈ names entries := by
  induction entries with
  | nil => simp [Entries.insert, names]
  | cons e rest ih =>
    obtain ⟨m, w⟩ := e
    by_cases hm : m = n
    · subst hm
      simp [Entries.insert, names]
    · have hb : (m == n) = false := by simpa using hm
      simp only [names] at ih
      simp only [Entries.insert, hb, Bool.false_eq_true, ↓reduceIte, names, List.map_cons,
        List.mem_cons, ih]
      constructor
      · rintro (h | h | h)
        · exact .inr (.inl h)
        · exact .inl h
        · exact .inr (.inr h)
      · rintro (h | h | h)
        · exact .inr (.inl h)
        · exact .inl h
        · exact .inr (.inr h)

theorem names_cons (e : String × α) (rest : Entries α) : names (e :: rest) = e.1 :: names rest :=
  rfl

theorem names_insert (entries : Entries α) (n : String) (v : α) :
    names (Entries.insert n v entries) =
      if n ∈ names entries then names entries else names entries ++ [n] := by
  induction entries with
  | nil => rfl
  | cons e rest ih =>
    obtain ⟨m, w⟩ := e
    by_cases hm : m = n
    · simp [Entries.insert, names_cons, hm]
    · have hb : (m == n) = false := by simpa using hm
      simp only [Entries.insert, hb, Bool.false_eq_true, ↓reduceIte, names_cons, ih,
        List.mem_cons, Ne.symm hm, false_or]
      split
      · rfl
      · rfl

theorem nodup_names_insert {entries : Entries α} (h : (names entries).Nodup) (n : String) (v : α) :
    (names (Entries.insert n v entries)).Nodup := by
  induction entries with
  | nil => simp [Entries.insert, names]
  | cons e rest ih =>
    obtain ⟨m, w⟩ := e
    rw [names, List.map_cons, List.nodup_cons] at h
    by_cases hm : m = n
    · subst hm
      simpa [Entries.insert, names] using h
    · have hb : (m == n) = false := by simpa using hm
      simp only [Entries.insert, hb, Bool.false_eq_true, ↓reduceIte, names, List.map_cons,
        List.nodup_cons]
      refine ⟨?_, ih h.2⟩
      intro hmem
      rcases (mem_names_insert rest n m v).1 hmem with h' | h'
      · exact hm h'
      · exact h.1 h'

theorem nodup_names_insertAll {entries : Entries α} (h : (names entries).Nodup)
    (more : List (String × α)) : (names (insertAll entries more)).Nodup := by
  induction more generalizing entries with
  | nil => exact h
  | cons e rest ih => exact ih (nodup_names_insert h e.1 e.2)

theorem nodup_names_ofList (pairs : List (String × α)) : (names (ofList pairs)).Nodup := by
  have h : (names ([] : Entries α)).Nodup := List.nodup_nil
  exact nodup_names_insertAll h pairs

theorem nodup_names_erase {entries : Entries α} (h : (names entries).Nodup) (n : String) :
    (names (erase entries n)).Nodup :=
  List.Nodup.sublist (List.Sublist.map _ List.filter_sublist) h

end Entries

end Stencil
