import Mathlib.Data.List.Basic
import Mathlib.Data.List.Induction
import Mathlib.Data.List.Perm.Subperm
import Stencil.Entries

/-!
Entries that are built by insertions.

Setting a name is undone by erasing it, and it does not interfere with what is done to another name
that has its place (`erase_insert`, `insert_comm`).

Whatever values are inserted, the names stand in the order of their first insertion
(`names_foldl_insert`), and a name has the value of its last one (`get?_insertAll`). Entries with
different names are determined by these two (`filterMap_names`), so a list of insertions comes to
one entry for each name, at its first place and with its last value (`ofList_eq_lastOfEach`).
-/

namespace Stencil.Entries

variable {α β : Type}

/-! ## Two names -/

theorem erase_insert (entries : Entries α) (n : String) (v : α) :
    (Entries.insert n v entries).erase n = entries.erase n := by
  induction entries with
  | nil => simp [Entries.insert, erase]
  | cons e rest ih =>
    obtain ⟨m, w⟩ := e
    simp only [erase] at ih
    by_cases hm : m = n
    · simp [Entries.insert, erase, hm]
    · have hb : (m == n) = false := by simpa using hm
      simp [Entries.insert, erase, hb, hm, ih]

theorem erase_insert_of_ne (entries : Entries α) {m n : String} (h : m ≠ n)
    (v : α) : (Entries.insert n v entries).erase m = Entries.insert n v (entries.erase m) := by
  induction entries with
  | nil => simp [Entries.insert, erase, Ne.symm h]
  | cons e rest ih =>
    obtain ⟨k, w⟩ := e
    simp only [erase] at ih
    by_cases hk : k = n
    · subst hk
      simp [Entries.insert, erase, Ne.symm h]
    · have hb : (k == n) = false := by simpa using hk
      by_cases hkm : k = m
      · subst hkm
        simp [Entries.insert, erase, hb, ih]
      · simp [Entries.insert, erase, hb, hkm, ih]

/-- Two names can be set in either order if one of them has its place already. -/
theorem insert_comm {entries : Entries α} {m n : String} (h : m ≠ n)
    (hm : entries.get? m ≠ none) (v w : α) :
    Entries.insert m w (Entries.insert n v entries) =
      Entries.insert n v (Entries.insert m w entries) := by
  induction entries with
  | nil => exact absurd rfl hm
  | cons e rest ih =>
    obtain ⟨k, u⟩ := e
    rw [get?_cons] at hm
    by_cases hkm : k = m
    · subst hkm
      have hb : (k == n) = false := by simpa using h
      simp [Entries.insert, hb]
    · rw [if_neg hkm] at hm
      have hb : (k == m) = false := by simpa using hkm
      by_cases hkn : k = n
      · subst hkn
        simp [Entries.insert, hb]
      · have hb' : (k == n) = false := by simpa using hkn
        simp [Entries.insert, hb, hb', ih hm]

/-! ## A list of insertions -/

theorem get?_append (es fs : Entries α) (n : String) :
    get? (es ++ fs) n = (get? es n).or (get? fs n) :=
  List.lookup_append

theorem get?_insertAll (es : Entries α) (more : List (String × α)) (n : String) :
    (insertAll es more).get? n = get? (more.reverse ++ es) n := by
  induction more generalizing es with
  | nil => rfl
  | cons p more ih =>
    have hstep : insertAll es (p :: more) = insertAll (Entries.insert p.1 p.2 es) more := rfl
    rw [hstep, ih, List.reverse_cons, List.append_assoc, get?_append, get?_append, get?_insert,
      List.singleton_append, get?_cons]

theorem eraseDups_concat (xs : List String) (x : String) :
    (xs ++ [x]).eraseDups = if x ∈ xs then xs.eraseDups else xs.eraseDups ++ [x] := by
  rw [List.eraseDups_append]
  by_cases h : x ∈ xs
  · simp [List.removeAll, h]
  · simp [List.removeAll, h, List.eraseDups_cons]

/-- Names in the order of their first insertion, whatever is inserted for them. -/
theorem names_foldl_insert (step : Entries α → β → Entries α) (name : β → String)
    (hstep : ∀ es b, ∃ v, step es b = Entries.insert (name b) v es) (bs : List β) :
    names (bs.foldl step []) = (bs.map name).eraseDups := by
  induction bs using List.reverseRecOn with
  | nil => rfl
  | append_singleton bs b ih =>
    obtain ⟨v, hv⟩ := hstep (bs.foldl step []) b
    rw [List.foldl_append, List.foldl_cons, List.foldl_nil, hv, names_insert, ih, List.map_append,
      List.map_singleton, eraseDups_concat]
    simp only [List.mem_eraseDups]

theorem names_ofList (pairs : List (String × α)) :
    names (ofList pairs) = (pairs.map Prod.fst).eraseDups :=
  names_foldl_insert _ Prod.fst (fun _ p => ⟨p.2, rfl⟩) pairs

/-- Entries with different names are what their names stand for, in the order of the names. -/
theorem filterMap_names {es : Entries α} (h : (names es).Nodup) :
    (names es).filterMap (fun n => (es.get? n).map (n, ·)) = es := by
  induction es with
  | nil => rfl
  | cons e rest ih =>
    obtain ⟨m, v⟩ := e
    rw [names_cons, List.nodup_cons] at h
    have hrest : (names rest).filterMap (fun n => (get? ((m, v) :: rest) n).map (n, ·)) =
        (names rest).filterMap fun n => (get? rest n).map (n, ·) := by
      refine List.filterMap_congr fun n hn => ?_
      have hne : m ≠ n := fun heq => h.1 (heq ▸ hn)
      rw [get?_cons, if_neg hne]
    rw [names_cons, List.filterMap_cons, get?_cons, if_pos rfl, hrest, ih h.2]
    rfl

/-- One entry for each name, at the place where it occurs first and with the value that it has
last. -/
def lastOfEach (pairs : List (String × α)) : Entries α :=
  (pairs.map Prod.fst).eraseDups.filterMap fun n => (get? pairs.reverse n).map (n, ·)

theorem ofList_eq_lastOfEach (pairs : List (String × α)) : ofList pairs = lastOfEach pairs := by
  have hget : ∀ n, (ofList pairs).get? n = get? pairs.reverse n := fun n => by
    rw [ofList, get?_insertAll, List.append_nil]
  rw [lastOfEach, ← names_ofList]
  simp only [← hget]
  exact (filterMap_names (nodup_names_ofList pairs)).symm

/-! ## Different names -/

theorem get?_eq_some_iff {entries : Entries α} (h : (names entries).Nodup) {n : String} {v : α} :
    entries.get? n = some v ↔ (n, v) ∈ entries := by
  refine ⟨mem_of_get?, fun hmem => ?_⟩
  induction entries with
  | nil => cases hmem
  | cons e rest ih =>
    obtain ⟨m, w⟩ := e
    rw [names, List.map_cons, List.nodup_cons] at h
    obtain ⟨hm, hrest⟩ := h
    rw [get?_cons]
    rcases List.mem_cons.mp hmem with heq | hmem
    · cases heq
      rw [if_pos rfl]
    · have hne : m ≠ n := by
        rintro rfl
        exact hm (List.mem_map.mpr ⟨_, hmem, rfl⟩)
      rw [if_neg hne, ih hrest hmem]

theorem get?_perm {entries entries' : Entries α} (hp : entries'.Perm entries)
    (h : (names entries).Nodup) (n : String) : entries'.get? n = entries.get? n := by
  have h' : (names entries').Nodup := (hp.map Prod.fst).nodup_iff.mpr h
  apply Option.ext
  intro v
  rw [get?_eq_some_iff h, get?_eq_some_iff h', hp.mem_iff]

/-- As many names, all of them among the others, are the same names. -/
theorem mem_names_of_subset {es : Entries α} {fs : Entries β} (h : (names es).Nodup)
    (hlength : es.length = fs.length) (hsubset : names es ⊆ names fs) {n : String}
    (hn : n ∈ names fs) : n ∈ names es := by
  have hle : (names fs).length ≤ (names es).length := by simp [names, hlength]
  exact ((List.subperm_of_subset h hsubset).perm_of_length_le hle).mem_iff.mpr hn

end Stencil.Entries
