import Mathlib.Logic.Function.Basic
import Spacegate.Foundation.Trace
import Spacegate.PluginWasm.Config

/-!
# Metrics that guests share

A metric has a value, which guests read, and an instrument of its kind, which is exported.  For a
counter both are to tell the same: what was added to it.  An increment adds to both, but a record
sets the value and adds to the instrument.
-/

namespace Spacegate.PluginWasm.SharedMetrics

open Foundation.Trace Function

inductive MetricType where
  | counter
  | gauge
  | histogram
  deriving DecidableEq, Repr

structure MetricEntry where
  /-- Also the kind of the instrument. -/
  kind : MetricType
  /-- Under which the instrument is exported. -/
  name : String
  value : Nat
  deriving DecidableEq, Repr

structure State where
  byId : Nat → Option MetricEntry
  byName : String → Option Nat
  nextId : Nat
  /-- The sum of what was added to the exported counter of a name. -/
  exported : String → Nat

def State.init : State where
  byId := fun _ => none
  byName := fun _ => none
  nextId := 0
  exported := fun _ => 0

inductive MetricOpResult where
  | ok
  | notFound
  | badArgument
  deriving DecidableEq, Repr

section Registry

variable (s : State)

/-- The number of the next metric. -/
def State.freshId : Nat :=
  max ((s.nextId + 1) % 2 ^ 32) 1

def metricDefine (kind : MetricType) (name : String) : State × Nat :=
  match s.byName name with
  | some id => (s, id)
  | none =>
    let entry := { kind := kind, name := name, value := 0 }
    ({ s with
        byId := Function.update s.byId s.freshId (some entry)
        byName := Function.update s.byName name (some s.freshId)
        nextId := s.freshId }, s.freshId)

/-- A metric gets a value, and something is given to its instrument.  Only what is added to
counters is kept here. -/
def State.update (id : Nat) (m : MetricEntry) (value added : Nat) : State :=
  { s with
    byId := Function.update s.byId id (some { m with value := value })
    exported :=
      if m.kind = .counter then
        Function.update s.exported m.name (s.exported m.name + added)
      else s.exported }

def metricRecord (id : Nat) (value : UInt64) : State × MetricOpResult :=
  match s.byId id with
  | some m => (s.update id m value.toNat value.toNat, .ok)
  | none => (s, .notFound)

def metricIncrement (id : Nat) (delta : Int) : State × MetricOpResult :=
  match s.byId id with
  | none => (s, .notFound)
  | some m =>
    if m.kind = .counter ∧ delta < 0 then (s, .badArgument)
    else
      let value :=
        if 0 ≤ delta then min (m.value + delta.toNat) (2 ^ 64 - 1)
        else m.value - (-delta).toNat
      (s.update id m value (max delta 0).toNat, .ok)

def metricGet (id : Nat) : Option Nat :=
  (s.byId id).map (·.value)

end Registry

/-! ## Runs -/

/-- A call, whichever guest makes it. -/
inductive Call where
  | define (kind : MetricType) (name : String)
  | record (id : Nat) (value : UInt64)
  | increment (id : Nat) (delta : Int)
  | get (id : Nat)

def step (s : State) : Call → State
  | .define kind name => (metricDefine s kind name).1
  | .record id value => (metricRecord s id value).1
  | .increment id delta => (metricIncrement s id delta).1
  | .get _ => s

/-- Every counter tells what was added to it, while that fits into a number of 64 bits. -/
def Tallies (s : State) : Prop :=
  ∀ id m, s.byId id = some m → m.kind = .counter → s.exported m.name < 2 ^ 64 →
    metricGet s id = some (s.exported m.name)

/-- What a call may do to counters. -/
structure CountsUp (s : State) (call : Call) : Prop where
  noLess : ∀ id m, s.byId id = some m → m.kind = .counter →
    ∃ value, metricGet (step s call) id = some value ∧ m.value ≤ value
  tallies : Tallies (step s call)

/-- A new metric gets a number that is not in use. -/
def TakesFreshId (s : State) : Call → Prop
  | .define _ name => s.byName name = none → s.byId s.freshId = none
  | _ => True

/-- A value is recorded for a counter only while that is zero. -/
def RecordsAtZero (s : State) : Call → Prop
  | .record id _ => ∀ m, s.byId id = some m → m.kind = .counter → m.value = 0
  | _ => True

/-! ## Counters -/

structure Counting (s : State) : Prop where
  name : ∀ id m, s.byId id = some m → s.byName m.name = some id
  value : ∀ id m, s.byId id = some m → m.kind = .counter →
    m.value = min (s.exported m.name) (2 ^ 64 - 1)
  unnamed : ∀ name, s.byName name = none → s.exported name = 0

variable {s : State} {calls : List Call}

theorem counting_init : Counting .init := by
  constructor <;> simp [State.init]

variable (h : Counting s)
include h

theorem Counting.tallies : Tallies s := by
  intro id m hm hk hl
  have hValue := h.value id m hm hk
  rw [metricGet, hm, Option.map_some, hValue]
  congr 1
  omega

/-- The change of a metric that is a counter adds the same to both sides. -/
theorem Counting.update {id : Nat} {m : MetricEntry} {value added : Nat} (hm : s.byId id = some m)
    (hv : m.kind = .counter → value = min (s.exported m.name + added) (2 ^ 64 - 1)) :
    Counting (s.update id m value added) := by
  have hName := h.name id m hm
  constructor
  · intro other m' hm'
    simp only [State.update, update_apply] at hm' ⊢
    split_ifs at hm' with ho
    · cases hm'
      rw [ho]
      exact hName
    · exact h.name other m' hm'
  · intro other m' hm' hk'
    simp only [State.update, update_apply] at hm' ⊢
    split_ifs at hm' with ho
    · cases hm'
      have hk : m.kind = .counter := hk'
      rw [if_pos hk, update_self]
      exact hv hk
    · have hOld := h.value other m' hm' hk'
      -- another metric has another name
      have hNames : m'.name ≠ m.name := by
        intro he
        have hOther := h.name other m' hm'
        rw [he, hName] at hOther
        exact ho (Option.some.inj hOther).symm
      split_ifs
      · rwa [update_of_ne hNames]
      · exact hOld
  · intro name hn
    have hOld := h.unnamed name hn
    have hNames : name ≠ m.name := by
      rintro rfl
      rw [State.update, hName] at hn
      cases hn
    simp only [State.update]
    split_ifs
    · rwa [update_of_ne hNames]
    · exact hOld

theorem Counting.define {kind : MetricType} {name : String}
    (hf : TakesFreshId s (.define kind name)) : Counting (step s (.define kind name)) := by
  simp only [step, metricDefine]
  cases hn : s.byName name with
  | some id => exact h
  | none =>
    have hFree := hf hn
    have hOld : ∀ id m, s.byId id = some m → m.name ≠ name := by
      rintro id m hm rfl
      rw [h.name id m hm] at hn
      cases hn
    constructor
    · intro id m hm
      simp only [update_apply] at hm ⊢
      split_ifs at hm with hId
      · cases hm
        rw [if_pos rfl, hId]
      · rw [if_neg (hOld id m hm)]
        exact h.name id m hm
    · intro id m hm hk
      simp only [update_apply] at hm ⊢
      split_ifs at hm with hId
      · cases hm
        simp [h.unnamed name hn]
      · exact h.value id m hm hk
    · intro other ho
      simp only [update_apply] at ho
      split_ifs at ho
      exact h.unnamed other ho

variable {call : Call}

theorem Counting.next (hf : TakesFreshId s call)
    (hz : RecordsAtZero s call) : Counting (step s call) := by
  cases call with
  | define kind name => exact h.define hf
  | get id => exact h
  | record id value =>
    simp only [step, metricRecord]
    cases hm : s.byId id with
    | none => exact h
    | some m =>
      refine h.update hm fun hk => ?_
      have hValue := h.value id m hm hk
      have hZero := hz m hm hk
      have hLt := value.toNat_lt
      omega
  | increment id delta =>
    simp only [step, metricIncrement]
    cases hm : s.byId id with
    | none => exact h
    | some m =>
      dsimp only
      split_ifs with hNeg hPos
      · exact h
      · refine h.update hm fun hk => ?_
        have hValue := h.value id m hm hk
        omega
      · refine h.update hm fun hk => ?_
        exact absurd ⟨hk, by omega⟩ hNeg

/-- A counter keeps its number, and its value does not fall. -/
theorem Counting.noLess (hf : TakesFreshId s call)
    (hz : RecordsAtZero s call) {id : Nat} {m : MetricEntry} (hm : s.byId id = some m)
    (hk : m.kind = .counter) :
    ∃ value, metricGet (step s call) id = some value ∧ m.value ≤ value := by
  have hSame : metricGet s id = some m.value := by rw [metricGet, hm]; rfl
  have hUpdate : ∀ {other m'} {value added : Nat}, s.byId other = some m' →
      (m'.kind = .counter → m'.value ≤ value) →
      ∃ v, metricGet (s.update other m' value added) id = some v ∧ m.value ≤ v := by
    intro other m' value added hm' hv
    by_cases ho : id = other
    · subst ho
      cases hm.symm.trans hm'
      exact ⟨value, by simp [metricGet, State.update], hv hk⟩
    · refine ⟨m.value, ?_, le_rfl⟩
      simp [metricGet, State.update, ho, hm]
  cases call with
  | get other => exact ⟨m.value, hSame, le_rfl⟩
  | define kind name =>
    refine ⟨m.value, ?_, le_rfl⟩
    simp only [step, metricDefine]
    cases hn : s.byName name with
    | some other => exact hSame
    | none =>
      have hId : id ≠ s.freshId := by
        rintro rfl
        rw [hf hn] at hm
        cases hm
      simpa [metricGet, hId] using hSame
  | record other value =>
    simp only [step, metricRecord]
    cases hm' : s.byId other with
    | none => exact ⟨m.value, hSame, le_rfl⟩
    | some m' => exact hUpdate hm' fun hk' => (hz m' hm' hk').le.trans (Nat.zero_le _)
  | increment other delta =>
    simp only [step, metricIncrement]
    cases hm' : s.byId other with
    | none => exact ⟨m.value, hSame, le_rfl⟩
    | some m' =>
      dsimp only
      split_ifs with hNeg hPos
      · exact ⟨m.value, hSame, le_rfl⟩
      · refine hUpdate hm' fun hk' => ?_
        have hValue := h.value other m' hm' hk'
        omega
      · exact hUpdate hm' fun hk' => absurd ⟨hk', by omega⟩ hNeg

omit h

theorem exported_le_step (s : State) (call : Call) (name : String) :
    s.exported name ≤ (step s call).exported name := by
  have hUpdate : ∀ id m value added,
      s.exported name ≤ (s.update id m value added).exported name := by
    intro id m value added
    simp only [State.update]
    split_ifs
    · rw [update_apply]
      split_ifs with hn
      · rw [hn]
        exact Nat.le_add_right _ _
      · exact le_rfl
    · exact le_rfl
  cases call with
  | get id => exact le_rfl
  | define kind other =>
    simp only [step, metricDefine]
    split <;> exact le_rfl
  | record id value =>
    simp only [step, metricRecord]
    split
    · exact hUpdate ..
    · exact le_rfl
  | increment id delta =>
    simp only [step, metricIncrement]
    split
    · exact le_rfl
    · split
      · exact le_rfl
      · exact hUpdate ..

theorem exported_le_foldl (s : State) (calls : List Call) (name : String) :
    s.exported name ≤ (calls.foldl step s).exported name := by
  induction calls generalizing s with
  | nil => exact le_rfl
  | cons call calls ih => exact (exported_le_step s call name).trans (ih _)

/-! ## Runs in which counters count -/

theorem along_countsUp (h : Counting s) (hf : Along step TakesFreshId s calls)
    (hz : Along step RecordsAtZero s calls) : Along step CountsUp s calls := by
  induction calls generalizing s with
  | nil => trivial
  | cons call calls ih =>
    have hNext := h.next hf.1 hz.1
    exact ⟨⟨fun id m hm hk => h.noLess hf.1 hz.1 hm hk, hNext.tallies⟩, ih hNext hf.2 hz.2⟩

/-- What is recorded for a counter is added to its instrument, so before it there was nothing. -/
theorem Counting.recordsAtZero (h : Counting s) (hl : ∀ name, (step s call).exported name < 2 ^ 64)
    (ht : Tallies (step s call)) : RecordsAtZero s call := by
  cases call with
  | record id value =>
    intro m hm hk
    have hStep : step s (.record id value) = s.update id m value.toNat value.toNat := by
      simp [step, metricRecord, hm]
    rw [hStep] at hl ht
    have hSum := ht id { m with value := value.toNat } (by simp [State.update]) hk (hl _)
    simp [metricGet, State.update, hk] at hSum
    rw [h.value id m hm hk, hSum]
    rfl
  | _ => trivial

theorem along_recordsAtZero (h : Counting s) (hf : Along step TakesFreshId s calls)
    (hl : ∀ name, (calls.foldl step s).exported name < 2 ^ 64) (hc : Along step CountsUp s calls) :
    Along step RecordsAtZero s calls := by
  induction calls generalizing s with
  | nil => trivial
  | cons call calls ih =>
    have hz : RecordsAtZero s call :=
      h.recordsAtZero (fun name => (exported_le_foldl _ calls name).trans_lt (hl name))
        hc.1.tallies
    exact ⟨hz, ih (h.next hf.1 hz) hf.2 hl hc.2⟩

/-- While new metrics get numbers of their own, counters count up and tell what is exported if a
value is recorded for a counter only at zero; and only then, as long as the sums fit. -/
theorem countsUp_of_recordsAtZero (calls : List Call)
    (hf : Along step TakesFreshId .init calls) :
    (Along step RecordsAtZero .init calls →
      Along step CountsUp .init calls) ∧
    ((∀ name, (calls.foldl step .init).exported name < 2 ^ 64) →
      Along step CountsUp .init calls →
      Along step RecordsAtZero .init calls) :=
  ⟨along_countsUp counting_init hf, along_recordsAtZero counting_init hf⟩

theorem incremented_countsUp :
    Along step CountsUp .init
      [.define .counter "hits", .increment 1 5, .get 1] :=
  (countsUp_of_recordsAtZero [.define .counter "hits", .increment 1 5, .get 1]
    ⟨fun _ => rfl, trivial, trivial, trivial⟩).1 ⟨trivial, trivial, trivial, trivial⟩

theorem recorded_not_countsUp :
    ¬ Along step CountsUp .init
      [.define .counter "hits", .increment 1 5, .record 1 3] := by
  rintro ⟨-, -, h, -⟩
  obtain ⟨value, hValue, hLe⟩ := h.noLess 1 ⟨.counter, "hits", 5⟩ rfl rfl
  have hThree : some 3 = some value := hValue
  cases hThree
  exact absurd hLe (by decide)

end Spacegate.PluginWasm.SharedMetrics
