import Mathlib.Order.Basic
import Mathlib.Data.String.Basic
import Mathlib.Tactic

/-!
# Ordered maps as association lists

`BTreeMap` keeps its entries in key order.  The model is the list of entries in
that order: lookup returns the first entry of a key, and `upsert` updates the
entry of a key or, when there is none, inserts one before the first larger key.
The lookup laws hold for every list, sorted or not, so no invariant has to
travel with a map.
-/

namespace Spacegate.Foundation

open List Option

/-- The entries of a `BTreeMap`, in key order. -/
abbrev OrderedMap (κ ν : Type*) := List (κ × ν)

namespace OrderedMap

variable {κ ν : Type*}

/-- `BTreeMap::get`. -/
def get [DecidableEq κ] : OrderedMap κ ν → κ → Option ν
  | [], _ => none
  | (key, value) :: rest, k => if key = k then some value else get rest k

/-- Update the entry of a key, or insert one in key order.  `entry(k)` followed
by a write is `upsert k f` with `f` applied to the previous value, if any. -/
def upsert [LinearOrder κ] (k : κ) (f : Option ν → ν) : OrderedMap κ ν → OrderedMap κ ν
  | [] => [(k, f none)]
  | (key, value) :: rest =>
    if key = k then
      (k, f (some value)) :: rest
    else if k < key ∧ (get rest k).isNone then
      (k, f none) :: (key, value) :: rest
    else
      (key, value) :: upsert k f rest

/-- `BTreeMap::insert`. -/
def insert [LinearOrder κ] (k : κ) (value : ν) (m : OrderedMap κ ν) : OrderedMap κ ν :=
  upsert k (fun _ => value) m

@[simp] theorem get_nil [DecidableEq κ] (k : κ) : get ([] : OrderedMap κ ν) k = none := rfl

theorem get_cons [DecidableEq κ] (key : κ) (value : ν) (rest : OrderedMap κ ν) (k : κ) :
    get ((key, value) :: rest) k = if key = k then some value else get rest k := rfl

@[simp] theorem get_upsert_self [LinearOrder κ] (k : κ) (f : Option ν → ν)
    (m : OrderedMap κ ν) : get (upsert k f m) k = some (f (get m k)) := by
  induction m with
  | nil => simp [upsert, get_cons]
  | cons entry rest ih =>
    obtain ⟨key, value⟩ := entry
    by_cases hKey : key = k
    · simp [upsert, get_cons, hKey]
    · by_cases hi : k < key ∧ (get rest k).isNone
      · have hn : get rest k = none := isNone_iff_eq_none.mp hi.2
        simp [upsert, get_cons, hKey, hi.1, hn]
      · rw [upsert, if_neg hKey, if_neg hi, get_cons, if_neg hKey, ih, get_cons, if_neg hKey]

theorem get_upsert_of_ne [LinearOrder κ] {k k' : κ} (hne : k ≠ k') (f : Option ν → ν)
    (m : OrderedMap κ ν) : get (upsert k f m) k' = get m k' := by
  induction m with
  | nil => simp [upsert, get_cons, hne]
  | cons entry rest ih =>
    obtain ⟨key, value⟩ := entry
    by_cases hKey : key = k
    · subst hKey
      simp [upsert, get_cons, hne]
    · by_cases hi : k < key ∧ (get rest k).isNone
      · rw [upsert, if_neg hKey, if_pos hi, get_cons, if_neg hne]
      · rw [upsert, if_neg hKey, if_neg hi, get_cons, get_cons, ih]

/-! ## Entries -/

variable {m : OrderedMap κ ν}

theorem mem_of_get [DecidableEq κ] {k : κ} {value : ν} (h : get m k = some value) :
    (k, value) ∈ m := by
  induction m with
  | nil => exact absurd h (by simp)
  | cons entry rest ih =>
    obtain ⟨key, first⟩ := entry
    rw [get_cons] at h
    split at h
    · rename_i hKey
      rw [hKey, some.inj h]
      exact mem_cons_self
    · exact mem_cons_of_mem _ (ih h)

theorem isSome_get_iff [DecidableEq κ] (m : OrderedMap κ ν) (k : κ) :
    (get m k).isSome = true ↔ k ∈ m.map Prod.fst := by
  induction m with
  | nil => simp
  | cons entry rest ih =>
    obtain ⟨key, value⟩ := entry
    by_cases hKey : key = k
    · simp [get_cons, hKey]
    · simp only [get_cons, if_neg hKey, ih, map_cons, mem_cons]
      exact ⟨Or.inr, fun h => h.resolve_left fun hEq => hKey hEq.symm⟩

theorem get_of_mem [DecidableEq κ] (hn : (m.map Prod.fst).Nodup) {k : κ} {value : ν}
    (h : (k, value) ∈ m) : get m k = some value := by
  induction m with
  | nil => exact absurd h (by simp)
  | cons entry rest ih =>
    obtain ⟨key, first⟩ := entry
    rw [map_cons, nodup_cons] at hn
    rw [get_cons]
    rcases mem_cons.mp h with hh | hr
    · obtain ⟨rfl, rfl⟩ := Prod.mk.inj hh
      rw [if_pos rfl]
    · have hNe : key ≠ k := by
        rintro rfl
        exact hn.1 (mem_map.mpr ⟨_, hr, rfl⟩)
      rw [if_neg hNe]
      exact ih hn.2 hr

/-- An entry of an updated map is the written one or was there before. -/
theorem mem_upsert [LinearOrder κ] {k : κ} {f : Option ν → ν} {entry : κ × ν}
    (h : entry ∈ upsert k f m) : entry = (k, f (get m k)) ∨ entry ∈ m := by
  induction m with
  | nil =>
    simpa [upsert] using h
  | cons first rest ih =>
    rw [get_cons]
    unfold upsert at h
    split at h
    · rename_i hKey
      rw [if_pos hKey]
      exact (mem_cons.mp h).imp_right (mem_cons_of_mem _)
    · rename_i hKey
      rw [if_neg hKey]
      split at h
      · rename_i hi
        rw [isNone_iff_eq_none.mp hi.2]
        exact mem_cons.mp h
      · rcases mem_cons.mp h with rfl | h
        · exact Or.inr mem_cons_self
        · exact (ih h).imp_right (mem_cons_of_mem _)

theorem mem_keys_upsert [LinearOrder κ] {k k' : κ} {f : Option ν → ν}
    (h : k' ∈ (upsert k f m).map Prod.fst) : k' = k ∨ k' ∈ m.map Prod.fst := by
  obtain ⟨entry, he, rfl⟩ := mem_map.mp h
  rcases mem_upsert he with rfl | hOld
  · exact Or.inl rfl
  · exact Or.inr (mem_map_of_mem hOld)

/-- Every key keeps having one entry. -/
theorem nodup_keys_upsert [LinearOrder κ] (k : κ) (f : Option ν → ν) (h : (m.map Prod.fst).Nodup) :
    ((upsert k f m).map Prod.fst).Nodup := by
  induction m with
  | nil => simp [upsert]
  | cons first rest ih =>
    have hr := nodup_cons.mp h
    unfold upsert
    split
    · rename_i hKey
      subst hKey
      exact h
    · rename_i hKey
      split
      · rename_i hi
        refine nodup_cons.mpr ⟨?_, h⟩
        intro hMem
        rcases mem_cons.mp hMem with hEq | hMem
        · exact hKey hEq.symm
        · have hs := (isSome_get_iff rest k).mpr hMem
          rw [isNone_iff_eq_none.mp hi.2] at hs
          exact absurd hs (by simp)
      · refine nodup_cons.mpr ⟨?_, ih hr.2⟩
        intro hMem
        exact (mem_keys_upsert hMem).elim hKey hr.1

/-- A write to the value of one key. -/
theorem get_map_update [DecidableEq κ] (f : ν → ν) (k k' : κ) (m : OrderedMap κ ν) :
    get (m.map fun entry => if entry.1 = k then (entry.1, f entry.2) else entry) k' =
      if k = k' then (get m k').map f else get m k' := by
  induction m with
  | nil => simp
  | cons first rest ih =>
    obtain ⟨key, value⟩ := first
    by_cases hKey : key = k
    · subst hKey
      by_cases ha : key = k'
      · simp [get_cons, ha]
      · simp [get_cons, if_neg ha, ih]
    · simp only [map_cons, if_neg hKey, get_cons, ih]
      by_cases ha : key = k'
      · subst ha
        simp [Ne.symm hKey]
      · simp [ha]

end OrderedMap
end Spacegate.Foundation
