import Mathlib.Data.Nat.Bitwise
import Spacegate.Kernel.Http

/-!
# Request ids

`Snowflake::generate` puts a request id together from the time in milliseconds,
the id of the machine and a counter of the process, at the bits 22, 12 and 0 of a
64-bit number, and writes it as hexadecimal text.  Neither the machine id nor the
counter is cut to the width of its field, so that their upper bits reach into the
field above.  `snowflake_sound_iff` says for which runs the fields stay apart; the
ids of such a run are all different.
-/

namespace Spacegate.Kernel

open Foundation.Text HeaderValue List String UInt64

/-! ## Hexadecimal text -/

theorem isValueByte_digitChar {n : Nat} (h : n < 16) :
    ∀ b ∈ utf8EncodeChar (Nat.digitChar n), isValueByte b = true := by
  have hAll : ∀ n < 16, ∀ b ∈ utf8EncodeChar (Nat.digitChar n),
      isValueByte b = true := by decide +kernel
  exact hAll n h

theorem isValueByte_lowerHex (width n : Nat) :
    (strBytes (ofList (lowerHex width n))).all isValueByte = true := by
  rw [strBytes, toList_ofList, all_flatMap]
  induction width generalizing n with
  | zero => rfl
  | succ width ih =>
    rw [lowerHex, all_append, ih, all_cons, all_nil, Bool.and_true, Bool.true_and,
      all_eq_true]
    exact isValueByte_digitChar (Nat.mod_lt _ (by omega))

/-! ## Generating ids -/

/-- What the machine's id is taken from. -/
structure MachineEnv where
  /-- The variable `MACHINE_ID`, when it is set to a text. -/
  machineIdVar : Option String
  /-- `/var/lib/dbus/machine-id`, when it can be read. -/
  dbusMachineId : Option String
  random : UInt64
  /-- `DefaultHasher` over the bytes written to it. -/
  hash : List UInt8 → UInt64

/-- `machine_id`, on Linux. -/
def machineId (env : MachineEnv) : UInt64 :=
  match env.machineIdVar with
  | some mid =>
    match parseUnsigned 64 mid with
    | some n => ofNat n
    | none => env.hash (strBytes mid)
  | none => env.hash (strBytes (env.dbusMachineId.getD (toString env.random)))

/-- The number of an id: the time, the machine and the counter. -/
def snowflakeId (now : Nat) (machine inc : UInt64) : UInt64 :=
  let tsId := ofNat now <<< 22
  let machId := machine <<< 12
  tsId ||| machId ||| inc

/-- The text of an id. -/
def idText (id : UInt64) : String :=
  ofList (lowerHex 16 id.toNat)

/-- `Snowflake::generate`, with the counter before and after.  The header value is
unwrapped unchecked. -/
def generate (machine : UInt64) (now : Nat) (inc : UInt64) : Option HeaderValue × UInt64 :=
  (HeaderValue.fromStr (idText (snowflakeId now machine inc)), inc + 1)

/-- Calls at the given times, from a value of the counter. -/
def generateAll (machine : UInt64) : UInt64 → List Nat → List (Option HeaderValue)
  | _, [] => []
  | inc, now :: times =>
    let (id, inc) := generate machine now inc
    id :: generateAll machine inc times

theorem fromStr_idText (id : UInt64) : fromStr (idText id) = some ⟨strBytes (idText id)⟩ := by
  rw [fromStr, idText, if_pos (isValueByte_lowerHex 16 id.toNat)]

theorem fromStr_idText_inj {id id' : UInt64}
    (h : fromStr (idText id) = fromStr (idText id')) : id = id' := by
  rw [fromStr_idText, fromStr_idText, Option.some.injEq, mk.injEq, strBytes_inj,
    idText, idText, ofList_inj] at h
  have hLt (id : UInt64) : id.toNat < 16 ^ 16 := id.toNat_lt
  exact UInt64.toNat_inj.mp (lowerHex_inj (hLt id) (hLt id') h)

theorem getElem?_generateAll (machine inc : UInt64) (times : List Nat) (k : Nat) :
    (generateAll machine inc times)[k]? = times[k]?.map fun now =>
      fromStr (idText (snowflakeId now machine (inc + ofNat k))) := by
  induction times generalizing inc k with
  | nil => rfl
  | cons now times ih =>
    cases k with
    | zero => simp [generateAll, generate]
    | succ k =>
      rw [generateAll, generate, getElem?_cons_succ, getElem?_cons_succ, ih]
      have hInc : inc + 1 + UInt64.ofNat k = inc + UInt64.ofNat (k + 1) := by
        rw [UInt64.ofNat_add, UInt64.add_assoc, UInt64.add_comm 1]
        rfl
      rw [hInc]

theorem length_generateAll (machine inc : UInt64) (times : List Nat) :
    (generateAll machine inc times).length = times.length := by
  induction times generalizing inc with
  | nil => rfl
  | cons now times ih => rw [generateAll, length_cons, length_cons, ih]

/-! ## The fields of an id -/

/-- The documented layout: 42 bits of time, 10 bits of the machine and 12 bits of
the counter. -/
structure HasLayout (id : UInt64) (now : Nat) (machine inc : UInt64) : Prop where
  timestamp : id.toNat / 2 ^ 22 = now
  machineId : id.toNat / 2 ^ 12 % 2 ^ 10 = machine.toNat % 2 ^ 10
  increment : id.toNat % 2 ^ 12 = inc.toNat % 2 ^ 12

/-- The bits of the machine id and of the counter that are above their fields are
set in the field above as well. -/
structure Fits (now : Nat) (machine inc : UInt64) : Prop where
  timestamp : ∀ i < 42, machine.toNat.testBit (i + 10) = true ∨ inc.toNat.testBit (i + 22) = true →
    now.testBit i = true
  machineId : ∀ i < 10, inc.toNat.testBit (i + 12) = true → machine.toNat.testBit i = true

theorem testBit_snowflakeId (now : Nat) (machine inc : UInt64) (hi : i < 64) :
    (snowflakeId now machine inc).toNat.testBit i =
      (decide (22 ≤ i) && now.testBit (i - 22) || decide (12 ≤ i) && machine.toNat.testBit (i - 12)
        || inc.toNat.testBit i) := by
  have hs (a : UInt64) (cnt : UInt64) (hcnt : cnt.toNat < 64) :
      (a <<< cnt).toNat.testBit i =
        (decide (cnt.toNat ≤ i) && a.toNat.testBit (i - cnt.toNat)) := by
    rw [UInt64.toNat_shiftLeft, Nat.testBit_mod_two_pow, Nat.testBit_shiftLeft,
      Nat.mod_eq_of_lt hcnt]
    simp [hi]
  have hNow : (ofNat now).toNat.testBit (i - 22) = now.testBit (i - 22) := by
    have hSmall : i - 22 < 64 := by omega
    rw [UInt64.toNat_ofNat', Nat.testBit_mod_two_pow]
    simp [hSmall]
  rw [snowflakeId, UInt64.toNat_or, UInt64.toNat_or, Nat.testBit_or, Nat.testBit_or,
    hs _ 22 (by decide), hs _ 12 (by decide)]
  simp only [UInt64.reduceToNat, hNow]

theorem eq_iff_testBit (hm : m < 2 ^ width) (hn : n < 2 ^ width) :
    m = n ↔ ∀ i < width, m.testBit i = n.testBit i := by
  constructor
  · rintro rfl i _
    rfl
  · intro h
    apply Nat.eq_of_testBit_eq
    intro i
    by_cases hi : i < width
    · exact h i hi
    · have hLe : 2 ^ width ≤ 2 ^ i := Nat.pow_le_pow_right (by omega) (by omega)
      rw [Nat.testBit_lt_two_pow (by omega), Nat.testBit_lt_two_pow (by omega)]

theorem timestamp_iff (hNow : now < 2 ^ 42) (machine inc : UInt64) :
    (snowflakeId now machine inc).toNat / 2 ^ 22 = now ↔
      ∀ i < 42, machine.toNat.testBit (i + 10) = true ∨ inc.toNat.testBit (i + 22) = true →
        now.testBit i = true := by
  have hId := (snowflakeId now machine inc).toNat_lt
  rw [eq_iff_testBit (by omega) hNow]
  apply forall₂_congr
  intro i hi
  have hm : i + 22 - 12 = i + 10 := by omega
  rw [Nat.testBit_div_two_pow, testBit_snowflakeId now machine inc (by omega)]
  simp only [Nat.le_add_left, decide_true, Nat.add_sub_cancel, Bool.true_and, hm,
    show 12 ≤ i + 22 by omega]
  cases now.testBit i <;> simp

theorem machineField_iff (now : Nat) (machine inc : UInt64) :
    (snowflakeId now machine inc).toNat / 2 ^ 12 % 2 ^ 10 = machine.toNat % 2 ^ 10 ↔
      ∀ i < 10, inc.toNat.testBit (i + 12) = true → machine.toNat.testBit i = true := by
  rw [eq_iff_testBit (Nat.mod_lt _ (by decide)) (Nat.mod_lt _ (by decide))]
  apply forall₂_congr
  intro i hi
  rw [Nat.testBit_mod_two_pow, Nat.testBit_mod_two_pow, Nat.testBit_div_two_pow,
    testBit_snowflakeId now machine inc (by omega)]
  simp only [hi, decide_true, Bool.true_and, show ¬ 22 ≤ i + 12 by omega, decide_false,
    Bool.false_and, Bool.false_or, Nat.le_add_left, Nat.add_sub_cancel]
  cases machine.toNat.testBit i <;> simp

theorem incrementField_eq (now : Nat) (machine inc : UInt64) :
    (snowflakeId now machine inc).toNat % 2 ^ 12 = inc.toNat % 2 ^ 12 := by
  rw [eq_iff_testBit (Nat.mod_lt _ (by decide)) (Nat.mod_lt _ (by decide))]
  intro i hi
  rw [Nat.testBit_mod_two_pow, Nat.testBit_mod_two_pow,
    testBit_snowflakeId now machine inc (by omega)]
  simp [show ¬ 22 ≤ i by omega, show ¬ 12 ≤ i by omega]

theorem hasLayout_iff (hNow : now < 2 ^ 42) (machine inc : UInt64) :
    HasLayout (snowflakeId now machine inc) now machine inc ↔ Fits now machine inc := by
  constructor
  · intro h
    exact ⟨(timestamp_iff hNow machine inc).mp h.timestamp,
      (machineField_iff now machine inc).mp h.machineId⟩
  · intro h
    exact ⟨(timestamp_iff hNow machine inc).mpr h.timestamp,
      (machineField_iff now machine inc).mpr h.machineId, incrementField_eq now machine inc⟩

theorem fits_of_lt (now : Nat) {machine inc : UInt64} (hm : machine.toNat < 2 ^ 10)
    (hInc : inc.toNat < 2 ^ 12) : Fits now machine inc := by
  have hh {n width : Nat} (hn : n < 2 ^ width) (i : Nat) : n.testBit (i + width) = false := by
    apply Nat.testBit_lt_two_pow
    exact hn.trans_le (Nat.pow_le_pow_right (by omega) (by omega))
  constructor
  · rintro i - (h | h)
    · rw [hh hm] at h
      exact absurd h (by simp)
    · rw [hh hInc] at h
      exact absurd h (by simp)
  · intro i _ h
    rw [hh hInc] at h
    exact absurd h (by simp)

/-! ## Runs -/

/-- A clock that never goes back, stays below `2 ^ 42` and allows 4096 calls in a
millisecond. -/
structure ClockRun (times : List Nat) : Prop where
  sorted : times.Pairwise (· ≤ ·)
  bounded : ∀ now ∈ times, now < 2 ^ 42
  rate : ∀ now, times.count now ≤ 4096

/-- All ids of the calls are different and laid out as documented. -/
structure SnowflakeSound (machine : UInt64) (times : List Nat) : Prop where
  distinct : (generateAll machine 0 times).Nodup
  layout : ∀ k now, times[k]? = some now → ∃ id : UInt64,
    (generateAll machine 0 times)[k]? = some (some ⟨strBytes (idText id)⟩) ∧
      HasLayout id now machine (ofNat k)

/-- Two calls at one time are fewer than 4096 calls apart. -/
theorem ClockRun.sub_lt {times : List Nat} (h : ClockRun times) {j : Nat} (hij : i < j)
    (hi : times[i]? = some now) (hj : times[j]? = some now) : j - i < 4096 := by
  obtain ⟨hi', hiNow⟩ := List.getElem?_eq_some_iff.mp hi
  obtain ⟨hj', hjNow⟩ := List.getElem?_eq_some_iff.mp hj
  have hs (a b : Nat) (ha : a < times.length) (hb : b < times.length) (hab : a ≤ b) :
      times[a] ≤ times[b] := by
    rcases hab.eq_or_lt with rfl | hLt
    · exact le_refl _
    · exact pairwise_iff_getElem.mp h.sorted a b ha hb hLt
  -- The calls in between are at the same time, and there are at most 4096 of them.
  have hBetween : ∀ now' ∈ (times.drop i).take (j - i + 1), now' = now := by
    intro now' hMem
    obtain ⟨n, hn, rfl⟩ := mem_iff_getElem.mp hMem
    rw [length_take, length_drop] at hn
    rw [getElem_take, getElem_drop]
    have hf := hs i (i + n) hi' (by omega) (by omega)
    have hTo := hs (i + n) j (by omega) hj' (by omega)
    omega
  have hl : ((times.drop i).take (j - i + 1)).length = j - i + 1 := by
    rw [length_take, length_drop]
    omega
  have hc : ((times.drop i).take (j - i + 1)).count now ≤ times.count now :=
    ((take_sublist _ _).trans (drop_sublist _ _)).count_le now
  rw [count_eq_length.mpr fun now' hMem => (hBetween now' hMem).symm, hl] at hc
  have hr := h.rate now
  omega

/-- The ids of a run are sound exactly when the machine id and the counter fit
into their fields at every call. -/
theorem snowflake_sound_iff {machine : UInt64} {times : List Nat} (hClock : ClockRun times) :
    SnowflakeSound machine times ↔
      ∀ k now, times[k]? = some now → Fits now machine (ofNat k) := by
  have hc (k now : Nat) (hk : times[k]? = some now) :
      (generateAll machine 0 times)[k]? =
        some (fromStr (idText (snowflakeId now machine (UInt64.ofNat k)))) := by
    rw [getElem?_generateAll, hk, UInt64.zero_add, Option.map_some]
  have hb (k now : Nat) (hk : times[k]? = some now) : now < 2 ^ 42 :=
    hClock.bounded now (mem_of_getElem? hk)
  constructor
  · intro h k now hk
    obtain ⟨id, hId, hl⟩ := h.layout k now hk
    rw [hc k now hk, ← fromStr_idText, Option.some.injEq] at hId
    rw [← fromStr_idText_inj hId] at hl
    exact (hasLayout_iff (hb k now hk) machine _).mp hl
  · intro hFits
    have hl (k now : Nat) (hk : times[k]? = some now) :=
      (hasLayout_iff (hb k now hk) machine (ofNat k)).mpr (hFits k now hk)
    constructor
    · rw [nodup_iff_getElem?_ne_getElem?]
      intro i j hij hj hs
      rw [length_generateAll] at hj
      obtain ⟨now, hi⟩ : ∃ now, times[i]? = some now := ⟨_, getElem?_eq_getElem (by omega)⟩
      obtain ⟨now', hj⟩ : ∃ now', times[j]? = some now' := ⟨_, getElem?_eq_getElem hj⟩
      rw [hc i now hi, hc j now' hj, Option.some.injEq] at hs
      have hId := fromStr_idText_inj hs
      -- Equal ids have equal times and equal last bits of the counter.
      have hNow : now = now' := by
        rw [← (hl i now hi).timestamp, hId, (hl j now' hj).timestamp]
      have hInc : i % 2 ^ 12 = j % 2 ^ 12 := by
        have hf := (hl i now hi).increment
        rw [hId, (hl j now' hj).increment, toNat_ofNat', toNat_ofNat'] at hf
        omega
      subst hNow
      have hn := hClock.sub_lt hij hi hj
      omega
    · intro k now hk
      refine ⟨_, ?_, hl k now hk⟩
      rw [hc k now hk, fromStr_idText]

/-- A machine with an id of 10 bits, and three calls in two milliseconds. -/
theorem threeCalls_sound : SnowflakeSound 7 [1700000000000, 1700000000000, 1700000000001] := by
  have hc : ClockRun [1700000000000, 1700000000000, 1700000000001] := by
    refine ⟨by decide, by decide, fun now => ?_⟩
    exact List.count_le_length.trans (by decide)
  refine (snowflake_sound_iff hc).mpr fun k now hk => ?_
  obtain ⟨hk, -⟩ := List.getElem?_eq_some_iff.mp hk
  apply fits_of_lt now (by decide)
  rw [toNat_ofNat']
  simp only [length_cons, length_nil] at hk
  omega

/-- With `MACHINE_ID=1024` a bit of the machine's id is added to the time. -/
theorem machine_1024_overlaps :
    ClockRun [1700000000000] ∧
      ¬ SnowflakeSound (machineId ⟨some "1024", none, 0, fun _ => 0⟩) [1700000000000] := by
  refine ⟨⟨by decide, by decide, fun now => count_le_length.trans (by decide)⟩, fun h => ?_⟩
  have hm : machineId ⟨some "1024", none, 0, fun _ => 0⟩ = 1024 := by decide +kernel
  obtain ⟨id, hId, hl⟩ := h.layout 0 1700000000000 rfl
  rw [getElem?_generateAll, ← fromStr_idText, getElem?_cons_zero, Option.map_some,
    Option.some.injEq] at hId
  rw [← fromStr_idText_inj hId] at hl
  exact absurd hl.timestamp (by decide +kernel)

end Spacegate.Kernel
