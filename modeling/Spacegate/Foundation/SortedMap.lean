import Mathlib.Data.List.Sort
import Mathlib.Order.Basic
import Spacegate.Foundation.WriteHistory

/-!
# Maps as sorted lists of entries

A map is the list of its entries in the order of their keys, so two maps with the same
values under all keys are equal.  The order also serves for hash maps, whose order of
iteration is left open where they are iterated.
-/

namespace Spacegate.Foundation

open WriteHistory List

structure SortedMap (κ ν : Type*) [LinearOrder κ] where
  entries : List (κ × ν)
  sorted : entries.Pairwise fun a b => a.1 < b.1

namespace SortedMap

variable {κ ν : Type*} [LinearOrder κ]

/-- The value of the first entry of a key. -/
def getEntry (k : κ) : List (κ × ν) → Option ν
  | [] => none
  | (key, value) :: rest => if key = k then some value else getEntry k rest

def insertEntry (k : κ) (value : ν) : List (κ × ν) → List (κ × ν)
  | [] => [(k, value)]
  | (key, old) :: rest =>
    if k < key then (k, value) :: (key, old) :: rest
    else if k = key then (k, value) :: rest
    else (key, old) :: insertEntry k value rest

variable {entries : List (κ × ν)}

theorem mem_insertEntry {k : κ} {value : ν} {entry : κ × ν}
    (h : entry ∈ insertEntry k value entries) : entry = (k, value) ∨ entry ∈ entries := by
  induction entries with
  | nil => simpa [insertEntry] using h
  | cons first rest ih =>
    unfold insertEntry at h
    split_ifs at h with hLt hEq
    · simpa using h
    · rcases mem_cons.mp h with rfl | hr
      · exact .inl rfl
      · exact .inr (mem_cons_of_mem _ hr)
    · rcases mem_cons.mp h with rfl | hr
      · exact .inr mem_cons_self
      · exact (ih hr).imp id (mem_cons_of_mem _)

theorem sorted_insertEntry (k : κ) (value : ν) (h : entries.Pairwise fun a b => a.1 < b.1) :
    (insertEntry k value entries).Pairwise fun a b => a.1 < b.1 := by
  induction entries with
  | nil => exact pairwise_singleton _ _
  | cons first rest ih =>
    obtain ⟨key, old⟩ := first
    obtain ⟨hf, hr⟩ := pairwise_cons.mp h
    unfold insertEntry
    split_ifs with hLt hEq
    · refine pairwise_cons.mpr ⟨?_, h⟩
      intro entry he
      rcases mem_cons.mp he with rfl | hl
      · exact hLt
      · exact hLt.trans (hf entry hl)
    · subst hEq
      exact pairwise_cons.mpr ⟨hf, hr⟩
    · refine pairwise_cons.mpr ⟨?_, ih hr⟩
      intro entry he
      rcases mem_insertEntry he with rfl | hl
      · exact lt_of_le_of_ne (not_lt.mp hLt) (Ne.symm hEq)
      · exact hf entry hl

instance : EmptyCollection (SortedMap κ ν) where
  emptyCollection := ⟨[], List.Pairwise.nil⟩

variable (m : SortedMap κ ν)

def get (k : κ) : Option ν :=
  getEntry k m.entries

def insert (k : κ) (value : ν) : SortedMap κ ν where
  entries := insertEntry k value m.entries
  sorted := sorted_insertEntry k value m.sorted

def erase (k : κ) : SortedMap κ ν where
  entries := m.entries.filter (·.1 ≠ k)
  sorted := m.sorted.filter _

def insertAll (entries : List (κ × ν)) : SortedMap κ ν :=
  entries.foldl (fun m entry => m.insert entry.1 entry.2) m

variable {m}

@[simp] theorem get_empty (k : κ) : (∅ : SortedMap κ ν).get k = none := rfl

@[simp] theorem entries_empty : (∅ : SortedMap κ ν).entries = [] := rfl

theorem getEntry_eq_some_iff {k : κ} {value : ν} (h : entries.Pairwise fun a b => a.1 < b.1) :
    getEntry k entries = some value ↔ (k, value) ∈ entries := by
  induction entries with
  | nil => simp [getEntry]
  | cons first rest ih =>
    obtain ⟨key, old⟩ := first
    obtain ⟨hf, hr⟩ := pairwise_cons.mp h
    unfold getEntry
    split_ifs with hKey
    · subst hKey
      have hNot : (key, value) ∉ rest := fun hMem => lt_irrefl key (hf (key, value) hMem)
      simp [hNot, eq_comm]
    · rw [ih hr, mem_cons]
      simp [Ne.symm hKey]

theorem get_eq_some_iff {k : κ} {value : ν} : m.get k = some value ↔ (k, value) ∈ m.entries :=
  getEntry_eq_some_iff m.sorted

theorem getEntry_insertEntry (k k' : κ) (value : ν) (entries : List (κ × ν)) :
    getEntry k' (insertEntry k value entries) =
      if k = k' then some value else getEntry k' entries := by
  induction entries with
  | nil => rfl
  | cons first rest ih =>
    obtain ⟨key, old⟩ := first
    unfold insertEntry
    by_cases hLt : k < key
    · rw [if_pos hLt]
      rfl
    · rw [if_neg hLt]
      by_cases hEq : k = key
      · subst hEq
        rw [if_pos rfl, getEntry, getEntry]
        split_ifs <;> rfl
      · rw [if_neg hEq, getEntry, getEntry, ih]
        by_cases hKey : key = k'
        · rw [if_pos hKey, if_pos hKey, if_neg fun h => hEq (h.trans hKey.symm)]
        · rw [if_neg hKey, if_neg hKey]

variable (m : SortedMap κ ν)

theorem get_insert (k k' : κ) (value : ν) :
    (m.insert k value).get k' = if k = k' then some value else m.get k' :=
  getEntry_insertEntry k k' value m.entries

theorem get_insert_ne {k k' : κ} (h : k ≠ k') (value : ν) :
    (m.insert k value).get k' = m.get k' := by
  rw [get_insert, if_neg h]

theorem get_erase (k k' : κ) : (m.erase k).get k' = if k = k' then none else m.get k' := by
  apply Option.ext
  intro value
  rw [get_eq_some_iff]
  split_ifs with hKey
  · simp [erase, hKey]
  · rw [get_eq_some_iff]
    simp [erase, Ne.symm hKey]

theorem get_insertAll (entries : List (κ × ν)) (k : κ) :
    (m.insertAll entries).get k = (latest entries k).or (m.get k) := by
  have hw : ∀ (s : SortedMap κ ν) (entry : κ × ν) (k : κ),
      (s.insert entry.1 entry.2).get k =
        if entry.1 = k then some entry.2 else s.get k :=
    fun s entry k => get_insert s entry.1 k entry.2
  simpa [insertAll] using foldl_write_eq_latest (·.1) (·.2) get
    (fun s entry => s.insert entry.1 entry.2) hw entries m k

theorem get_insertAll_empty (entries : List (κ × ν)) (k : κ) :
    ((∅ : SortedMap κ ν).insertAll entries).get k = latest entries k := by
  rw [get_insertAll]
  exact Option.or_none

variable {m : SortedMap κ ν}

theorem latest_of_mem_iff (h : ∀ entry, entry ∈ entries ↔ entry ∈ m.entries)
    (k : κ) : latest entries k = m.get k := by
  apply Option.ext
  intro value
  rw [latest_eq_some_iff_of_unique, h, get_eq_some_iff]
  intro value value' hMem hm'
  rw [h, ← get_eq_some_iff] at hMem hm'
  exact Option.some.inj (hMem.symm.trans hm')

theorem latest_entries (k : κ) : latest m.entries k = m.get k :=
  latest_of_mem_iff (fun _ => Iff.rfl) k

theorem ext_entries {m m' : SortedMap κ ν} (h : m.entries = m'.entries) : m = m' := by
  cases m'
  cases h
  rfl

theorem nodup_entries : m.entries.Nodup := by
  refine m.sorted.imp ?_
  rintro a b hLt rfl
  exact lt_irrefl _ hLt

theorem ext_get {m m' : SortedMap κ ν} (h : ∀ k, m.get k = m'.get k) : m = m' := by
  apply ext_entries
  have hp : m.entries.Perm m'.entries := by
    rw [perm_ext_iff_of_nodup m.nodup_entries m'.nodup_entries]
    rintro ⟨k, value⟩
    rw [← get_eq_some_iff, ← get_eq_some_iff, h k]
  refine hp.eq_of_pairwise ?_ m.sorted m'.sorted
  intro a b _ _ hab hba
  exact absurd (hab.trans hba) (lt_irrefl _)

theorem insertAll_of_mem_iff (h : ∀ entry, entry ∈ entries ↔ entry ∈ m.entries) :
    (∅ : SortedMap κ ν).insertAll entries = m :=
  ext_get fun k => by rw [get_insertAll_empty, latest_of_mem_iff h]

/-! ## Two maps side by side -/

section Related

variable {ν' : Type*} {entries : List (κ × ν)}

theorem map_fst_sorted (m : SortedMap κ ν) : (m.entries.map Prod.fst).SortedLT :=
  (pairwise_map.mpr m.sorted).sortedLT

theorem mem_map_fst_iff {k : κ} : k ∈ m.entries.map Prod.fst ↔ (m.get k).isSome := by
  simp [Option.isSome_iff_exists, get_eq_some_iff]

/-- The entries are what the keys lead to. -/
theorem map_entries (m : SortedMap κ ν) :
    m.entries.map (fun entry => (entry.1, some entry.2)) =
      (m.entries.map Prod.fst).map fun k => (k, m.get k) := by
  rw [map_map]
  refine map_congr_left fun entry he => ?_
  rw [Function.comp, get_eq_some_iff.mpr he]

theorem forall₂_entries {R : ν → ν' → Prop} {m' : SortedMap κ ν'}
    (h : ∀ k, Option.Rel R (m.get k) (m'.get k)) :
    List.Forall₂ (fun a b => a.1 = b.1 ∧ R a.2 b.2) m.entries m'.entries := by
  have hKeys : m.entries.map Prod.fst = m'.entries.map Prod.fst := by
    refine m.map_fst_sorted.eq_of_mem_iff m'.map_fst_sorted fun k => ?_
    have hk := h k
    rw [mem_map_fst_iff, mem_map_fst_iff]
    generalize m.get k = value, m'.get k = value' at hk ⊢
    cases hk <;> simp
  have hAll : List.Forall₂ (fun a b => a.1 = b.1 ∧ Option.Rel R a.2 b.2)
      (m.entries.map fun entry => (entry.1, some entry.2))
      (m'.entries.map fun entry => (entry.1, some entry.2)) := by
    rw [map_entries, map_entries, ← hKeys, forall₂_map_left_iff, forall₂_map_right_iff]
    exact forall₂_same.mpr fun k _ => ⟨rfl, h k⟩
  simpa [forall₂_map_left_iff, forall₂_map_right_iff] using hAll

end Related

end SortedMap
end Spacegate.Foundation
