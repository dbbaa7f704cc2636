import Mathlib.Logic.Function.Basic
import Spacegate.PluginWasm.Config

/-!
# Data that guests share

All guests of the process read and write one table of values, each with a number that counts how
often it was written.  Every call holds the lock of the table to its end, so whatever guests do is
one sequence of calls.
-/

namespace Spacegate.PluginWasm.SharedData

open List Function

structure SharedDataEntry where
  value : Bytes
  cas : Nat
  deriving DecidableEq, Repr

/-- `SharedDataEntry::default`. -/
def SharedDataEntry.default : SharedDataEntry where
  value := []
  cas := 0

abbrev Store := Bytes → Option SharedDataEntry

def sharedDataGet (store : Store) (key : Bytes) : Option (Bytes × Nat) :=
  (store key).map fun e => (e.value, e.cas)

inductive SharedDataSetResult where
  | ok
  | casMismatch
  deriving DecidableEq, Repr

def sharedDataSet (store : Store) (key value : Bytes) (cas : Nat) : Store × SharedDataSetResult :=
  let entry := (store key).getD .default
  if cas ≠ 0 ∧ cas ≠ entry.cas then
    -- by then `or_default` has made the entry
    (update store key (some entry), .casMismatch)
  else
    (update store key
      (some { value := value, cas := max ((entry.cas + 1) % 2 ^ 32) 1 }), .ok)

/-! ## Runs -/

/-- A call, whichever guest makes it. -/
inductive Call where
  | get (key : Bytes)
  | set (key value : Bytes) (cas : Nat)

def step (store : Store) : Call → Store
  | .get _ => store
  | .set key value cas => (sharedDataSet store key value cas).1

/-- The table after some calls. -/
def after (calls : List Call) : Store :=
  calls.foldl step fun _ => none

/-- What a call writes to a key, if it is a set that succeeds. -/
def Call.wrote (key : Bytes) (store : Store) : Call → List Bytes
  | .get _ => []
  | .set key' value cas =>
    if key' = key ∧ (sharedDataSet store key' value cas).2 = .ok then [value] else []

/-- The values that calls write to a key, one for each set that succeeds. -/
def written (key : Bytes) : Store → List Call → List Bytes
  | _, [] => []
  | store, call :: calls => call.wrote key store ++ written key (step store call) calls

/-- The values that are written to a key from the beginning on. -/
def history (key : Bytes) (calls : List Call) : List Bytes :=
  written key (fun _ => none) calls

/-- What guests can rely on in a run. -/
structure IsCasMap (calls : List Call) : Prop where
  /-- A key has the value that was written last, and is absent if there is none. -/
  value : ∀ earlier later key, calls = earlier ++ later →
    (sharedDataGet (after earlier) key).map (·.1) = (history key earlier).getLast?
  mismatch : ∀ earlier key value cas later, calls = earlier ++ .set key value cas :: later →
    (sharedDataSet (after earlier) key value cas).2 = .casMismatch →
    ∀ other, sharedDataGet (step (after earlier) (.set key value cas)) other =
      sharedDataGet (after earlier) other
  swap : ∀ earlier key between value cas later old,
    calls = earlier ++ .get key :: (between ++ .set key value cas :: later) →
    sharedDataGet (after earlier) key = some (old, cas) → cas ≠ 0 →
    ((sharedDataSet (after (earlier ++ .get key :: between)) key value cas).2 = .ok ↔
      written key (after earlier) between = [])

/-- Numbers are compared only where something was written. -/
def ComparesWritten (calls : List Call) : Prop :=
  ∀ earlier key value cas later, calls = earlier ++ .set key value cas :: later → cas ≠ 0 →
    history key earlier ≠ []

variable {calls earlier later : List Call} {key : Bytes} {store : Store}

theorem written_append (store : Store) (earlier later : List Call) :
    written key store (earlier ++ later) =
      written key store earlier ++ written key (earlier.foldl step store) later := by
  induction earlier generalizing store with
  | nil => rfl
  | cons call earlier ih => simp [written, ih]

theorem history_append (earlier later : List Call) :
    history key (earlier ++ later) = history key earlier ++ written key (after earlier) later :=
  written_append _ earlier later

theorem length_written_le (store : Store) (calls : List Call) :
    (written key store calls).length ≤ calls.length := by
  induction calls generalizing store with
  | nil => rfl
  | cons call calls ih =>
    have hOne : (call.wrote key store).length ≤ 1 := by
      cases call with
      | get other => exact Nat.zero_le 1
      | set other value cas =>
        rw [Call.wrote]
        split_ifs <;> simp
    have hRest := ih (step store call)
    rw [written, length_append, length_cons]
    omega

theorem ComparesWritten.left (h : ComparesWritten (earlier ++ later)) :
    ComparesWritten earlier := by
  intro earlier' key value cas later' hc hCas
  refine h earlier' key value cas (later' ++ later) ?_ hCas
  rw [hc, append_assoc, cons_append]

/-! ## What the table holds -/

/-- The entry of a key to which some values were written. -/
def entryOf (values : List Bytes) : Option SharedDataEntry :=
  values.getLast?.map fun value => { value := value, cas := values.length }

theorem entryOf_eq_none_iff {values : List Bytes} : entryOf values = none ↔ values = [] := by
  simp [entryOf]

theorem cas_getD_entryOf (values : List Bytes) :
    ((entryOf values).getD .default).cas = values.length := by
  cases h : entryOf values with
  | none =>
    rw [entryOf_eq_none_iff.mp h]
    rfl
  | some entry =>
    obtain ⟨value, -, rfl⟩ := Option.map_eq_some_iff.mp h
    rfl

/-- A set keeps the table true to what was written, unless it compares the number of a key to
which nothing was written. -/
theorem step_set {values : Bytes → List Bytes} (hs : ∀ key, store key = entryOf (values key))
    {key value : Bytes} {cas : Nat} (hw : cas ≠ 0 → values key ≠ [])
    (hf : (values key ++ Call.wrote key store (.set key value cas)).length < 2 ^ 32)
    (other : Bytes) : step store (.set key value cas) other =
      entryOf (values other ++ Call.wrote other store (.set key value cas)) := by
  have hc : ((store key).getD .default).cas = (values key).length := by
    rw [hs, cas_getD_entryOf]
  by_cases hm : cas ≠ 0 ∧ cas ≠ (values key).length
  · -- the entry was there, and is put back as it was
    have hSome : some ((store key).getD .default) = store key := by
      cases h : store key with
      | none => exact absurd (entryOf_eq_none_iff.mp (hs key ▸ h)) (hw hm.1)
      | some entry => rfl
    simp only [step, sharedDataSet, Call.wrote, hc, if_pos hm, hSome, update_eq_self,
      reduceCtorEq, and_false, if_false, append_nil]
    exact hs other
  · simp only [step, sharedDataSet, Call.wrote, hc, if_neg hm, and_true] at hf ⊢
    by_cases ho : key = other
    · subst ho
      have hMax : max (((values key).length + 1) % 2 ^ 32) 1 = (values key).length + 1 := by
        rw [if_pos trivial, length_append, length_singleton] at hf
        rw [Nat.mod_eq_of_lt hf]
        omega
      simp only [hMax, update_self, entryOf, if_true, getLast?_concat,
        length_append, length_singleton, Option.map_some]
    · rw [update_of_ne (Ne.symm ho), if_neg ho, append_nil]
      exact hs other

theorem after_eq (hc : ComparesWritten calls) (hf : ∀ key, (history key calls).length < 2 ^ 32)
    (key : Bytes) : after calls key = entryOf (history key calls) := by
  induction calls using List.reverseRecOn generalizing key with
  | nil => rfl
  | append_singleton calls call ih =>
    have hShort : ∀ key, (history key calls).length < 2 ^ 32 := by
      intro key
      have hLength := hf key
      rw [history_append, length_append] at hLength
      omega
    have hs := ih hc.left hShort
    have hLast : ∀ key, history key (calls ++ [call]) =
        history key calls ++ call.wrote key (after calls) := by
      intro key
      rw [history_append, written, written, append_nil]
    rw [hLast, after, foldl_append, ← after]
    cases call with
    | get other =>
      rw [Call.wrote, append_nil]
      exact hs key
    | set other value cas =>
      exact step_set hs (hc calls other value cas [] rfl) (hLast other ▸ hf other) key

/-! ## Compare and swap -/

theorem isCasMap_of_comparesWritten (hf : ∀ key, (history key calls).length < 2 ^ 32)
    (hc : ComparesWritten calls) : IsCasMap calls := by
  -- the table at any time of the run
  have hAt : ∀ earlier later, calls = earlier ++ later → ∀ key,
      after earlier key = entryOf (history key earlier) := by
    intro earlier later h
    subst h
    refine after_eq hc.left fun key => ?_
    have hLength := hf key
    rw [history_append, length_append] at hLength
    omega
  refine ⟨?_, ?_, ?_⟩
  · intro earlier later key h
    rw [sharedDataGet, hAt earlier later h, entryOf, Option.map_map, Option.map_map]
    exact Option.map_id'
  · intro earlier key value cas later h hm other
    have hNow := hAt earlier _ h
    have hNext := hAt (earlier ++ [.set key value cas]) later (by simp [h])
    have hNone : history other (earlier ++ [.set key value cas]) = history other earlier := by
      simp [history_append, written, Call.wrote, hm]
    have hSame : step (after earlier) (.set key value cas) other = after earlier other := by
      rw [hNow, ← hNone, ← hNext, after, after, foldl_append]
      rfl
    rw [sharedDataGet, sharedDataGet, hSame]
  · intro earlier key between value cas later old h hGet hCas
    have hNow := hAt earlier _ h key
    have hThen := hAt (earlier ++ .get key :: between) (.set key value cas :: later)
      (by simp [h]) key
    have hOld : cas = (history key earlier).length := by
      rw [sharedDataGet, hNow, entryOf, Option.map_map, Option.map_eq_some_iff] at hGet
      obtain ⟨value, -, hPair⟩ := hGet
      exact (Prod.mk.inj hPair).2.symm
    have hNew : ((after (earlier ++ .get key :: between) key).getD .default).cas =
        cas + (written key (after earlier) between).length := by
      rw [hThen, cas_getD_entryOf, history_append, length_append, ← hOld]
      rfl
    rw [← length_eq_zero_iff, sharedDataSet, hNew]
    split_ifs with hm
    · simp only [false_iff]
      omega
    · simp only [true_iff]
      omega

/-- Guests share a map with compare and swap exactly as long as nobody compares the number of a
key to which nothing was written. -/
theorem isCasMap_iff_comparesWritten (calls : List Call)
    (hf : ∀ key, (history key calls).length < 2 ^ 32) :
    IsCasMap calls ↔ ComparesWritten calls := by
  refine ⟨?_, isCasMap_of_comparesWritten hf⟩
  intro h earlier key value cas later hCalls hCas hEmpty
  have hAbsent : after earlier key = none := by
    have hValue := h.value earlier _ key hCalls
    rw [hEmpty] at hValue
    simpa [sharedDataGet] using hValue
  have hm : cas ≠ 0 ∧ cas ≠ ((after earlier key).getD .default).cas := by
    rw [hAbsent]
    exact ⟨hCas, hCas⟩
  -- the set fails, and its key is there from then on
  have hSet : sharedDataSet (after earlier) key value cas =
      (update (after earlier) key (some .default), .casMismatch) := by
    rw [sharedDataSet, if_pos hm, hAbsent]
    rfl
  have hSame := h.mismatch earlier key value cas later hCalls (by rw [hSet]) key
  simp [step, hSet, sharedDataGet, hAbsent] at hSame

theorem isCasMap_swapped :
    IsCasMap [.set [1] [2] 0, .get [1], .set [1] [3] 1, .set [1] [4] 1] ↔
      ComparesWritten [.set [1] [2] 0, .get [1], .set [1] [3] 1, .set [1] [4] 1] :=
  isCasMap_iff_comparesWritten _ fun _ =>
    (length_written_le _ _).trans_lt (by decide)

theorem absentKey_not_isCasMap : ¬ IsCasMap [.set [1] [2] 5] := by
  intro h
  have hSame := h.mismatch [] [1] [2] 5 [] rfl (by decide) [1]
  revert hSame
  decide

end Spacegate.PluginWasm.SharedData
