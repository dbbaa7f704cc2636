import Spacegate.Foundation.SortedMap

/-!
# A store of running processes

Processes are started under a name and kept in a store, one for each name.  A process that
leaves the store goes on running unless it is shut down.  A process is known by its number in
the order in which the processes were started.
-/

namespace Spacegate.Foundation

open SortedMap List

/-- A process that was started. -/
structure Registry.Started (κ P : Type*) where
  name : κ
  process : P
  running : Bool

structure Registry (κ P : Type*) [LinearOrder κ] where
  started : List (Registry.Started κ P)
  store : SortedMap κ ℕ

namespace Registry

variable {κ P : Type*} [LinearOrder κ]

def Started.runningName (entry : Started κ P) : Option κ :=
  if entry.running then some entry.name else none

variable (r : Registry κ P)

/-- The name of a process that is running. -/
def running (i : ℕ) : Option κ :=
  r.started[i]?.bind Started.runningName

def empty : Registry κ P where
  started := []
  store := ∅

/-- A new process takes the place of the one that is stored. -/
def save (name : κ) (process : P) : Registry κ P where
  started := r.started ++ [⟨name, process, true⟩]
  store := r.store.insert name r.started.length

def modify (i : ℕ) (f : P → P) : Registry κ P :=
  { r with started := r.started.modify i fun entry => { entry with process := f entry.process } }

def shutdown (i : ℕ) : Registry κ P :=
  { r with started := r.started.modify i fun entry => { entry with running := false } }

/-- The process of a name leaves the store and is shut down. -/
def remove (name : κ) : Registry κ P :=
  match r.store.get name with
  | some i => { r.shutdown i with store := r.store.erase name }
  | none => r

/-- All processes of the store leave it and are shut down. -/
def reset : Registry κ P :=
  { r.store.entries.foldl (fun r entry => r.shutdown entry.2) r with store := ∅ }

/-- The processes that are running are those of the store, and no two of them have one name. -/
structure InSync (r : Registry κ P) : Prop where
  running_iff : ∀ i, (∃ name, r.running i = some name) ↔ ∃ name, r.store.get name = some i
  unique : ∀ i j name, r.running i = some name → r.running j = some name → i = j

/-- Every process that is running is stored under its name, and nothing else is stored. -/
def InStep : Prop :=
  ∀ i name, r.running i = some name ↔ r.store.get name = some i

/-! ## Who is running -/

variable {r : Registry κ P}

theorem running_eq_none_of_le {i : ℕ} (h : r.started.length ≤ i) : r.running i = none := by
  rw [running, getElem?_eq_none h]
  rfl

variable (r : Registry κ P) (name : κ)

theorem running_save (process : P) (i : ℕ) :
    (r.save name process).running i =
      if i = r.started.length then some name else r.running i := by
  split_ifs with hNew
  · simp [running, save, hNew, Started.runningName]
  · rcases Nat.lt_or_ge i r.started.length with hLt | hGe
    · simp [running, save, getElem?_append_left hLt]
    · have hl : (r.save name process).started.length ≤ i := by
        simp only [save, length_append, length_singleton]
        omega
      rw [running_eq_none_of_le hGe, running_eq_none_of_le hl]

theorem running_modify (i j : ℕ) (f : P → P) : (r.modify i f).running j = r.running j := by
  simp only [running, modify, getElem?_modify]
  cases r.started[j]? with
  | none => rfl
  | some entry =>
    by_cases hh : i = j
    · simp [hh, Started.runningName]
    · simp [hh]

theorem running_shutdown (i j : ℕ) :
    (r.shutdown i).running j = if i = j then none else r.running j := by
  simp only [running, shutdown, getElem?_modify]
  cases r.started[j]? with
  | none => simp
  | some entry =>
    by_cases hh : i = j
    · simp [hh, Started.runningName]
    · simp [hh]

theorem running_remove (j : ℕ) :
    (r.remove name).running j = if r.store.get name = some j then none else r.running j := by
  unfold remove
  cases hs : r.store.get name with
  | none => simp
  | some i =>
    show (r.shutdown i).running j = _
    simp [running_shutdown, Option.some.injEq]

theorem length_started_remove : (r.remove name).started.length = r.started.length := by
  unfold remove
  cases r.store.get name with
  | none => rfl
  | some i => exact length_modify _ _ _

theorem get_store_remove (name name' : κ) :
    (r.remove name).store.get name' = if name = name' then none else r.store.get name' := by
  unfold remove
  cases hs : r.store.get name with
  | none =>
    split_ifs with hn
    · rw [← hn, hs]
    · rfl
  | some i => exact r.store.get_erase name name'

theorem running_foldl_shutdown (entries : List (κ × ℕ)) (j : ℕ) :
    (entries.foldl (fun r entry => r.shutdown entry.2) r).running j =
      if j ∈ entries.map Prod.snd then none else r.running j := by
  induction entries generalizing r with
  | nil => simp
  | cons entry entries ih =>
    rw [foldl_cons, ih, running_shutdown, map_cons]
    by_cases hr : j ∈ entries.map Prod.snd
    · rw [if_pos hr, if_pos (mem_cons_of_mem _ hr)]
    · rw [if_neg hr]
      by_cases hh : entry.2 = j
      · rw [if_pos hh, if_pos (mem_cons.mpr (.inl hh.symm))]
      · have hNot : j ∉ entry.2 :: entries.map Prod.snd := by
          simp only [mem_cons, not_or]
          exact ⟨Ne.symm hh, hr⟩
        rw [if_neg hh, if_neg hNot]

/-! ## Keeping the store and the processes in step -/

variable {r}

theorem InStep.inSync (h : r.InStep) : r.InSync where
  running_iff := fun i => exists_congr fun name => h i name
  unique := by
    intro i j name hi hj
    have hs := (h i name).mp hi
    rw [(h j name).mp hj] at hs
    exact (Option.some.inj hs).symm

theorem inStep_empty : (empty : Registry κ P).InStep := by
  intro i name
  simp [empty, running]

variable (h : r.InStep)
include h

theorem InStep.lt_length {name : κ} {i : ℕ} (hs : r.store.get name = some i) :
    i < r.started.length := by
  by_contra hLe
  have hr := (h i name).mpr hs
  rw [running_eq_none_of_le (by omega)] at hr
  cases hr

theorem InStep.save {name : κ} (hf : r.store.get name = none) (process : P) :
    (r.save name process).InStep := by
  intro i name'
  show _ ↔ (r.store.insert name r.started.length).get name' = some i
  rw [running_save, get_insert]
  by_cases hNew : i = r.started.length
  · rw [if_pos hNew]
    by_cases hn : name = name'
    · simp [hn, hNew]
    · rw [if_neg hn]
      constructor
      · intro hEq
        exact absurd (Option.some.inj hEq) hn
      · intro hs
        have hLt := h.lt_length hs
        omega
  · rw [if_neg hNew, h i name']
    by_cases hn : name = name'
    · subst hn
      simp [hf, Ne.symm hNew]
    · rw [if_neg hn]

theorem InStep.modify (i : ℕ) (f : P → P) : (r.modify i f).InStep := by
  intro j name
  rw [running_modify]
  exact h j name

theorem InStep.remove (name : κ) : (r.remove name).InStep := by
  intro i name'
  rw [running_remove, get_store_remove]
  by_cases hn : name = name'
  · subst hn
    by_cases hs : r.store.get name = some i
    · simp [hs]
    · have hNot : r.running i ≠ some name := fun hr => hs ((h i name).mp hr)
      simp [hs, hNot]
  · rw [if_neg hn]
    by_cases hs : r.store.get name = some i
    · -- the process runs under the other name
      have hr := (h i name).mpr hs
      rw [← h i name', hr]
      simp [hn]
    · rw [if_neg hs, h i name']

theorem InStep.reset : r.reset.InStep := by
  intro i name
  show (List.foldl _ r r.store.entries).running i = some name ↔ (∅ : SortedMap κ ℕ).get name = _
  rw [running_foldl_shutdown]
  split_ifs with hs
  · simp
  · have hNot : r.running i ≠ some name := by
      intro hr
      have he := get_eq_some_iff.mp ((h i name).mp hr)
      exact hs (mem_map.mpr ⟨(name, i), he, rfl⟩)
    simp [hNot]

theorem InStep.get_eq_none_of_inSync_save {name : κ} {process : P}
    (hSave : (r.save name process).InSync) : r.store.get name = none := by
  cases hs : r.store.get name with
  | none => rfl
  | some i =>
    have hLt := h.lt_length hs
    have hOld : (r.save name process).running i = some name := by
      rw [running_save, if_neg (by omega), h i name]
      exact hs
    have hNew : (r.save name process).running r.started.length = some name := by
      rw [running_save, if_pos rfl]
    have hSame := hSave.unique _ _ _ hOld hNew
    omega

omit h

end Registry
end Spacegate.Foundation
