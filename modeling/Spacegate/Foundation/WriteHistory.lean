import Mathlib.Tactic

/-!
# The value left by a sequence of writes

A store that is written key by key answers a lookup with the last value written
under the key.  `latest` is that answer, read off the history itself;
`foldl_write_eq_latest` says that a store whose write obeys the update law holds
exactly these values after the whole history.
-/

namespace Spacegate.Foundation.WriteHistory

open List Option

variable {κ ν σ : Type*} [DecidableEq κ]

/-- The value of the last write to a key, oldest write first. -/
def latest : List (κ × ν) → κ → Option ν
  | [], _ => none
  | (key, value) :: later, k => (latest later k).or (if key = k then some value else none)

@[simp] theorem latest_nil (k : κ) : latest ([] : List (κ × ν)) k = none := rfl

theorem latest_cons (key : κ) (value : ν) (later : List (κ × ν)) (k : κ) :
    latest ((key, value) :: later) k =
      (latest later k).or (if key = k then some value else none) := rfl

theorem latest_append (earlier later : List (κ × ν)) (k : κ) :
    latest (earlier ++ later) k = (latest later k).or (latest earlier k) := by
  induction earlier with
  | nil => simp
  | cons entry earlier ih =>
    rw [cons_append, latest_cons, latest_cons, ih, Option.or_assoc]

variable {α κ' ν' : Type*} {history : List (κ × ν)}

theorem latest_map_const (key : α → κ) (value : ν) (xs : List α) (k : κ) :
    latest (xs.map fun x => (key x, value)) k =
      if k ∈ xs.map key then some value else none := by
  induction xs with
  | nil => simp
  | cons x xs ih =>
    rw [map_cons, latest_cons, ih]
    by_cases hr : k ∈ xs.map key
    · simp [mem_cons, hr]
    · simp [mem_cons, hr, eq_comm]

theorem latest_ne_none_iff (history : List (κ × ν)) (k : κ) :
    latest history k ≠ none ↔ ∃ entry ∈ history, entry.1 = k := by
  induction history with
  | nil => simp
  | cons entry later ih =>
    obtain ⟨key, value⟩ := entry
    rw [latest_cons]
    by_cases hKey : key = k
    · simp [hKey]
    · simpa [hKey] using ih

variable {k : κ}

theorem latest_eq_none (h : ∀ entry ∈ history, entry.1 ≠ k) : latest history k = none := by
  by_contra hNe
  obtain ⟨entry, he, hKey⟩ := (latest_ne_none_iff history k).mp hNe
  exact h entry he hKey

theorem latest_map_key [DecidableEq κ'] {f : κ → κ'}
    (hf : ∀ entry ∈ history, f entry.1 = f k → entry.1 = k) :
    latest (history.map fun entry => (f entry.1, entry.2)) (f k) = latest history k := by
  induction history with
  | nil => rfl
  | cons entry later ih =>
    obtain ⟨key, value⟩ := entry
    have hKey : f key = f k ↔ key = k := ⟨hf _ mem_cons_self, fun h => congrArg f h⟩
    rw [map_cons, latest_cons, latest_cons, ih fun entry he => hf entry (mem_cons_of_mem _ he)]
    simp [hKey]

theorem latest_map_key_of_injective [DecidableEq κ'] {f : κ → κ'} (hf : Function.Injective f)
    (history : List (κ × ν)) (k : κ) :
    latest (history.map fun entry => (f entry.1, entry.2)) (f k) = latest history k :=
  latest_map_key fun _ _ hEq => hf hEq

theorem latest_map_entry (f : κ → ν → ν') (history : List (κ × ν)) (k : κ) :
    latest (history.map fun entry => (entry.1, f entry.1 entry.2)) k =
      (latest history k).map (f k) := by
  induction history with
  | nil => rfl
  | cons entry later ih =>
    obtain ⟨key, value⟩ := entry
    rw [map_cons, latest_cons, latest_cons, ih, map_or]
    split_ifs with hKey
    · rw [hKey]
      rfl
    · rfl

theorem latest_map_value (f : ν → ν') (history : List (κ × ν)) (k : κ) :
    latest (history.map fun entry => (entry.1, f entry.2)) k = (latest history k).map f :=
  latest_map_entry (fun _ => f) history k

/-- Of several histories only one writes to the key. -/
theorem latest_flatMap_of_mem {xs : List α} {f : α → List (κ × ν)} {x : α} (hx : x ∈ xs)
    (ho : ∀ y ∈ xs, y = x ∨ latest (f y) k = none) : latest (xs.flatMap f) k = latest (f x) k := by
  induction xs with
  | nil => cases hx
  | cons y ys ih =>
    rw [flatMap_cons, latest_append]
    have hr : ∀ z ∈ ys, z = x ∨ latest (f z) k = none :=
      fun z hz => ho z (mem_cons_of_mem y hz)
    by_cases hMem : x ∈ ys
    · rw [ih hMem hr]
      rcases ho y mem_cons_self with rfl | hn
      · rw [Option.or_self]
      · rw [hn, Option.or_none]
    · obtain rfl := (mem_cons.mp hx).resolve_right hMem
      have hn : latest (ys.flatMap f) k = none := by
        apply latest_eq_none
        intro entry hEntry hKey
        obtain ⟨z, hz, he⟩ := mem_flatMap.mp hEntry
        rcases hr z hz with rfl | hzNone
        · exact hMem hz
        · exact (latest_ne_none_iff (f z) k).mpr ⟨entry, he, hKey⟩ hzNone
      rw [hn, none_or]

/-- The value found for a key is the one of a write that no later write to the
same key follows. -/
theorem latest_eq_some {value : ν} (h : latest history k = some value) :
    ∃ earlier later, history = earlier ++ (k, value) :: later ∧ ∀ entry ∈ later, entry.1 ≠ k := by
  induction history with
  | nil => simp at h
  | cons entry rest ih =>
    obtain ⟨key, value'⟩ := entry
    rw [latest_cons, or_eq_some_iff] at h
    rcases h with h | ⟨hn, hh⟩
    · obtain ⟨earlier, later, hr, hl⟩ := ih h
      exact ⟨(key, value') :: earlier, later, by rw [hr]; rfl, hl⟩
    · by_cases hKey : key = k
      · rw [if_pos hKey] at hh
        obtain rfl := some.inj hh
        refine ⟨[], rest, by rw [hKey]; rfl, ?_⟩
        intro entry he hEq
        exact (latest_ne_none_iff rest k).mpr ⟨entry, he, hEq⟩ hn
      · rw [if_neg hKey] at hh
        exact absurd hh (by simp)

theorem mem_of_latest {value : ν} (h : latest history k = some value) : (k, value) ∈ history := by
  obtain ⟨earlier, later, hh, -⟩ := latest_eq_some h
  simp [hh]

theorem latest_eq_some_iff_of_unique {value : ν}
    (hu : ∀ value value', (k, value) ∈ history → (k, value') ∈ history → value = value') :
    latest history k = some value ↔ (k, value) ∈ history := by
  constructor
  · exact mem_of_latest
  · intro hMem
    obtain ⟨value', hv'⟩ := ne_none_iff_exists'.mp
      ((latest_ne_none_iff history k).mpr ⟨_, hMem, rfl⟩)
    rw [hv', hu value value' hMem (mem_of_latest hv')]

/-- The keys that have a value are written one after the other, some of them perhaps more than
once. -/
theorem latest_found (find : κ → Option ν) (keys : List κ) (k : κ) :
    latest (keys.filterMap fun key => (find key).map fun value => (key, value)) k =
      if k ∈ keys then find k else none := by
  induction keys with
  | nil => rfl
  | cons key keys ih =>
    cases hf : find key with
    | none =>
      rw [filterMap_cons_none (by rw [hf]; rfl), ih]
      by_cases hKey : k = key
      · simp [hKey, hf]
      · simp [hKey]
    | some value =>
      rw [filterMap_cons_some (by rw [hf]; rfl), latest_cons, ih]
      by_cases hKey : k = key
      · subst hKey
        by_cases hMem : k ∈ keys
        · simp [hMem, hf]
        · simp [hMem, hf]
      · simp [hKey, Ne.symm hKey]

theorem foldl_write_eq_latest {ε : Type*} (key : ε → κ) (value : ε → ν)
    (read : σ → κ → Option ν) (write : σ → ε → σ) (hw : ∀ s entry k,
      read (write s entry) k = if key entry = k then some (value entry) else read s k)
    (history : List ε) (s : σ) (k : κ) : read (history.foldl write s) k =
      (latest (history.map fun entry => (key entry, value entry)) k).or (read s k) := by
  induction history generalizing s with
  | nil => simp
  | cons entry later ih =>
    rw [foldl_cons, ih, hw, map_cons, latest_cons]
    by_cases hKey : key entry = k
    · simp [hKey]
    · simp [hKey]

end Spacegate.Foundation.WriteHistory
