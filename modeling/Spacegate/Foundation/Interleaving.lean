import Spacegate.Foundation.DiskProgram
import Spacegate.Foundation.Trace

/-!
# Programs that run side by side

Several programs work on one disk, and each step performs the next operation of one of
them.  A schedule is orderly when the programs overlap only while they read: as soon as one
of them has changed something, no other performs an operation until it has ended, and it
makes its first change while no other is under way.  What the programs find and leave under
an orderly schedule is what they find and leave one after the other.
-/

namespace Spacegate.Foundation.Interleaving

open Function List

variable {ι α : Type}

inductive Thread (α : Type) where
  | waiting
  /-- What is left to do, and whether something was changed before. -/
  | running (rest : Prog α) (changed : Bool)

namespace Thread

def rest (program : Prog α) : Thread α → Prog α
  | .waiting => program
  | .running rest _ => rest

def changed : Thread α → Bool
  | .waiting => false
  | .running _ changed => changed

def result : Thread α → Option α
  | .running (.done a) _ => some a
  | _ => none

def UnderWay : Thread α → Prop
  | .running (.step _ _) _ => True
  | _ => False

/-- Under way, with something changed. -/
def Changing (thread : Thread α) : Prop :=
  thread.UnderWay ∧ thread.changed = true

theorem underWay_running {rest : Prog α} {changed : Bool} :
    (running rest changed).UnderWay ↔ (running rest changed).result = none := by
  cases rest <;> simp [UnderWay, result]

theorem waiting_or_underWay {thread : Thread α} (h : thread.result = none) :
    thread = .waiting ∨ thread.UnderWay := by
  cases thread with
  | waiting => exact .inl rfl
  | running rest changed => exact .inr (underWay_running.mpr h)

theorem rest_of_result {thread : Thread α} {a : α} (program : Prog α)
    (h : thread.result = some a) : thread.rest program = .done a := by
  unfold result at h
  split at h
  · cases h
    rfl
  · cases h

end Thread

structure State (ι α : Type) where
  disk : Disk
  threads : ι → Thread α

def State.init (disk : Disk) : State ι α where
  disk := disk
  threads := fun _ => .waiting

variable (order : IterOrder) (programs : ι → Prog α)

section Definitions

variable [DecidableEq ι]

/-- The next operation of one program. -/
def step (s : State ι α) (i : ι) : State ι α :=
  match (s.threads i).rest (programs i) with
  | .done a =>
    { s with threads := Function.update s.threads i (.running (.done a) (s.threads i).changed) }
  | .step op next =>
    let performed := op.perform order s.disk
    { disk := performed.2
      threads := Function.update s.threads i
        (.running (next performed.1) ((s.threads i).changed || !op.reads)) }

def run (s : State ι α) (schedule : List ι) : State ι α :=
  schedule.foldl (step order programs) s

end Definitions

/-- The disk after the programs, one after the other. -/
def inSequence (d : Disk) (sequence : List ι) : Disk :=
  sequence.foldl (fun d i => ((programs i).run order d).2) d

theorem inSequence_concat (d : Disk) (sequence : List ι) (i : ι) :
    inSequence order programs d (sequence ++ [i]) =
      ((programs i).run order (inSequence order programs d sequence)).2 :=
  foldl_concat ..

/-- A step that is allowed in an orderly schedule.  `Ready` is what the disk must be like
when a program begins. -/
structure Orderly (Ready : ι → Disk → Prop) (s : State ι α) (i : ι) : Prop where
  ready : s.threads i = .waiting → Ready i s.disk
  reading : ∀ j, j ≠ i → ¬ (s.threads j).Changing
  changing : ∀ op next, (s.threads i).rest (programs i) = .step op next → op.reads = false →
    ∀ j, j ≠ i → ¬ (s.threads j).UnderWay

/-- The programs that have ended found what they find in this sequence. -/
structure Serial (Ready : ι → Disk → Prop) (d₀ : Disk) (s : State ι α) (sequence : List ι) :
    Prop where
  nodup : sequence.Nodup
  finished : ∀ i, i ∈ sequence ↔ (s.threads i).result.isSome
  found : ∀ before i later, sequence = before ++ i :: later →
    Ready i (inSequence order programs d₀ before) ∧
      (s.threads i).result = some ((programs i).run order (inSequence order programs d₀ before)).1

/-- The others have read only, or one is alone with the disk. -/
structure Inv (Ready : ι → Disk → Prop) (d₀ : Disk) (s : State ι α) (sequence : List ι) :
    Prop extends Serial order programs Ready d₀ s sequence where
  /-- A program under way ends as if it began after the sequence. -/
  onward : ∀ i, (s.threads i).UnderWay →
    Ready i (inSequence order programs d₀ sequence) ∧
      ((s.threads i).rest (programs i)).run order s.disk =
        (programs i).run order (inSequence order programs d₀ sequence)
  quiet : (∀ i, ¬ (s.threads i).Changing) → s.disk = inSequence order programs d₀ sequence
  alone : ∀ i, (s.threads i).Changing → ∀ j, j ≠ i → ¬ (s.threads j).UnderWay

section Step

variable {order programs} {Ready : ι → Disk → Prop} {d₀ : Disk} {s : State ι α}
  {sequence : List ι} {i : ι}

theorem inv_init : Inv order programs Ready d₀ (.init d₀) [] where
  nodup := nodup_nil
  finished := fun i => by simp [State.init, Thread.result]
  found := fun before i later h => by simp at h
  onward := fun i h => absurd h (by simp [State.init, Thread.UnderWay])
  quiet := fun _ => rfl
  alone := fun i h => absurd h.1 (by simp [State.init, Thread.UnderWay])

theorem Serial.not_mem (h : Serial order programs Ready d₀ s sequence)
    (hOpen : (s.threads i).result = none) : i ∉ sequence := by
  intro hMem
  have hr := (h.finished i).mp hMem
  rw [hOpen] at hr
  cases hr

variable [DecidableEq ι]

theorem threads_step_of_ne {j : ι} (h : j ≠ i) :
    (step order programs s i).threads j = s.threads j := by
  unfold step
  split <;> exact update_of_ne h _ _

theorem threads_step_ne_waiting : (step order programs s i).threads i ≠ .waiting := by
  unfold step
  split <;> simp

theorem underWay_step_iff : ((step order programs s i).threads i).UnderWay ↔
    ((step order programs s i).threads i).result = none := by
  cases ht : (step order programs s i).threads i with
  | waiting => exact absurd ht threads_step_ne_waiting
  | running rest changed => exact Thread.underWay_running

theorem run_rest_step : (((step order programs s i).threads i).rest (programs i)).run order
        (step order programs s i).disk =
      ((s.threads i).rest (programs i)).run order s.disk := by
  unfold step
  split
  case h_1 a hr =>
      rw [hr]
      simp only [update_self]
      rfl
  case h_2 op next hr =>
      rw [hr]
      simp only [update_self]
      rfl

theorem changed_of_changed_step (h : ((step order programs s i).threads i).changed = true) :
    (s.threads i).changed = true ∨
      ∃ op next, (s.threads i).rest (programs i) = .step op next ∧ op.reads = false := by
  unfold step at h
  split at h
  case h_1 a hRest =>
      simp only [update_self] at h
      exact .inl h
  case h_2 op next hRest =>
      simp only [update_self] at h
      cases hr : op.reads with
      | false => exact .inr ⟨op, next, hRest, hr⟩
      | true => exact .inl (by simpa [Thread.changed, hr] using h)

theorem disk_step_of_unchanged (h : ((step order programs s i).threads i).changed = false) :
    (s.threads i).changed = false ∧ (step order programs s i).disk = s.disk := by
  unfold step at h ⊢
  split at h
  case h_1 a hr =>
      simp only [update_self] at h
      exact ⟨h, rfl⟩
  case h_2 op next hr =>
      simp only [update_self, Thread.changed, Bool.or_eq_false_iff, Bool.not_eq_false'] at h
      exact ⟨h.1, Op.perform_of_reads h.2 _⟩

theorem step_of_result {a : α} (h : (s.threads i).result = some a) :
    step order programs s i = s := by
  have ht : s.threads i = .running (.done a) (s.threads i).changed := by
    cases ht : s.threads i with
    | waiting => simp [ht, Thread.result] at h
    | running rest changed =>
      rw [ht] at h
      have hr : rest = .done a := Thread.rest_of_result rest h
      rw [hr]
      rfl
  unfold step
  rw [Thread.rest_of_result _ h]
  simp only
  rw [← ht, update_eq_self]

theorem Orderly.not_changing_step (h : Orderly programs Ready s i) {j : ι} (hj : j ≠ i) :
    ¬ ((step order programs s i).threads j).Changing := by
  rw [threads_step_of_ne hj]
  exact h.reading j hj

namespace Inv

variable (h : Inv order programs Ready d₀ s sequence) (hOrderly : Orderly programs Ready s i)
  (hOpen : (s.threads i).result = none)

include h hOrderly hOpen

omit hOpen in
theorem disk_eq_of_not_changing (hi : ¬ (s.threads i).Changing) :
    s.disk = inSequence order programs d₀ sequence := by
  refine h.quiet fun j hc => ?_
  by_cases hj : j = i
  · exact hi (hj ▸ hc)
  · exact hOrderly.reading j hj hc

/-- The program whose turn it is ends as if it began after the sequence. -/
theorem current : Ready i (inSequence order programs d₀ sequence) ∧
      ((s.threads i).rest (programs i)).run order s.disk =
        (programs i).run order (inSequence order programs d₀ sequence) := by
  rcases Thread.waiting_or_underWay hOpen with hw | huw
  · have hd := h.disk_eq_of_not_changing hOrderly (by rw [hw]; exact fun hc => hc.1)
    refine ⟨?_, ?_⟩
    · rw [← hd]
      exact hOrderly.ready hw
    · rw [hw, hd]
      rfl
  · exact h.onward i huw

theorem alone_of_changed_step (hc : ((step order programs s i).threads i).changed = true)
    {j : ι} (hj : j ≠ i) : ¬ (s.threads j).UnderWay := by
  rcases changed_of_changed_step hc with hb | ⟨op, next, hRest, hr⟩
  · rcases Thread.waiting_or_underWay hOpen with hw | huw
    · rw [hw] at hb
      cases hb
    · exact h.alone i ⟨huw, hb⟩ j hj
  · exact hOrderly.changing op next hRest hr j hj

omit hOpen in
theorem disk_of_unchanged (hChanged : ((step order programs s i).threads i).changed = false) :
    s.disk = inSequence order programs d₀ sequence ∧
      (step order programs s i).disk = inSequence order programs d₀ sequence := by
  obtain ⟨hb, hd⟩ := disk_step_of_unchanged hChanged
  have hq := h.disk_eq_of_not_changing hOrderly fun hc => by simp [hc.2] at hb
  exact ⟨hq, hd.trans hq⟩

theorem onward_of_ne {j : ι} (hj : j ≠ i) (huw : (s.threads j).UnderWay) :
    (step order programs s i).disk = inSequence order programs d₀ sequence ∧
      Ready j (inSequence order programs d₀ sequence) ∧
      (((step order programs s i).threads j).rest (programs j)).run order
          (step order programs s i).disk =
        (programs j).run order (inSequence order programs d₀ sequence) := by
  have hc : ((step order programs s i).threads i).changed = false := by
    rw [Bool.eq_false_iff]
    intro hc
    exact h.alone_of_changed_step hOrderly hOpen hc hj huw
  obtain ⟨hq, hd⟩ := h.disk_of_unchanged hOrderly hc
  obtain ⟨hr, hRun⟩ := h.onward j huw
  refine ⟨hd, hr, ?_⟩
  rw [threads_step_of_ne hj, hd, ← hq]
  rw [← hq] at hRun
  exact hRun

/-- A step with which the program does not end. -/
theorem step_open (hStill : ((step order programs s i).threads i).result = none) :
    Inv order programs Ready d₀ (step order programs s i) sequence := by
  have hnm := h.not_mem hOpen
  refine
    { nodup := h.nodup
      finished := ?_
      found := ?_
      onward := ?_
      quiet := ?_
      alone := ?_ }
  · intro j
    by_cases hj : j = i
    · subst hj
      simp [hnm, hStill]
    · rw [threads_step_of_ne hj]
      exact h.finished j
  · intro before j later hs
    have hj : j ≠ i := by
      rintro rfl
      exact hnm (by simp [hs])
    rw [threads_step_of_ne hj]
    exact h.found before j later hs
  · intro j huw
    by_cases hj : j = i
    · subst hj
      rw [run_rest_step]
      exact h.current hOrderly hOpen
    · rw [threads_step_of_ne hj] at huw
      exact (h.onward_of_ne hOrderly hOpen hj huw).2
  · intro hq
    have hc : ((step order programs s i).threads i).changed = false := by
      rw [Bool.eq_false_iff]
      intro hc
      exact hq i ⟨underWay_step_iff.mpr hStill, hc⟩
    exact (h.disk_of_unchanged hOrderly hc).2
  · intro j hChanging k hk
    by_cases hj : j = i
    · subst hj
      rw [threads_step_of_ne hk]
      exact h.alone_of_changed_step hOrderly hOpen hChanging.2 hk
    · exact absurd hChanging (hOrderly.not_changing_step hj)

/-- A step with which the program ends. -/
theorem step_end {a : α} (hEnd : ((step order programs s i).threads i).result = some a) :
    Inv order programs Ready d₀ (step order programs s i) (sequence ++ [i]) := by
  have hnm := h.not_mem hOpen
  obtain ⟨hr, hRun⟩ := h.current hOrderly hOpen
  have ho : (programs i).run order (inSequence order programs d₀ sequence) =
      (a, (step order programs s i).disk) := by
    rw [← hRun, ← run_rest_step, Thread.rest_of_result _ hEnd]
    rfl
  have hd : inSequence order programs d₀ (sequence ++ [i]) = (step order programs s i).disk := by
    rw [inSequence_concat, ho]
  have hnuw : ¬ ((step order programs s i).threads i).UnderWay := by
    rw [underWay_step_iff, hEnd]
    simp
  refine
    { nodup := ?_
      finished := ?_
      found := ?_
      onward := ?_
      quiet := fun _ => hd.symm
      alone := ?_ }
  · exact nodup_append.mpr ⟨h.nodup, nodup_singleton i, by
      rintro j hj k hk rfl
      rw [mem_singleton.mp hk] at hj
      exact hnm hj⟩
  · intro j
    by_cases hj : j = i
    · subst hj
      simp [hEnd]
    · rw [threads_step_of_ne hj, ← h.finished j]
      simp [hj]
  · intro before j later hs
    rcases eq_nil_or_concat later with rfl | ⟨later', k, rfl⟩
    · obtain ⟨rfl, hl⟩ := append_inj' hs rfl
      cases hl
      exact ⟨hr, by rw [hEnd, ho]⟩
    · have hSplit : sequence ++ [i] = (before ++ j :: later') ++ [k] := by
        simpa using hs
      obtain ⟨hs', -⟩ := append_inj' hSplit rfl
      have hj : j ≠ i := by
        rintro rfl
        exact hnm (by simp [hs'])
      rw [threads_step_of_ne hj]
      exact h.found before j later' hs'
  · intro j huw
    have hj : j ≠ i := by
      rintro rfl
      exact hnuw huw
    rw [threads_step_of_ne hj] at huw
    obtain ⟨hSame, hOnward⟩ := h.onward_of_ne hOrderly hOpen hj huw
    rw [hd]
    rw [← hSame] at hOnward
    exact hOnward
  · intro j hc
    have hj : j ≠ i := by
      rintro rfl
      exact hnuw hc.1
    exact absurd hc (hOrderly.not_changing_step hj)

end Inv

theorem Inv.step (h : Inv order programs Ready d₀ s sequence)
    (hOrderly : Orderly programs Ready s i) :
    ∃ sequence', Inv order programs Ready d₀ (step order programs s i) sequence' := by
  cases hr : (s.threads i).result with
  | some a =>
    rw [step_of_result hr]
    exact ⟨sequence, h⟩
  | none =>
    cases hEnd : ((Interleaving.step order programs s i).threads i).result with
    | none => exact ⟨sequence, h.step_open hOrderly hr hEnd⟩
    | some a => exact ⟨sequence ++ [i], h.step_end hOrderly hr hEnd⟩

theorem Inv.run {schedule : List ι} (h : Inv order programs Ready d₀ s sequence)
    (hOrderly : Trace.Along (Interleaving.step order programs) (Orderly programs Ready) s
      schedule) :
    ∃ sequence', Inv order programs Ready d₀ (run order programs s schedule) sequence' := by
  induction schedule generalizing s sequence with
  | nil => exact ⟨sequence, h⟩
  | cons i schedule ih =>
    obtain ⟨sequence', h'⟩ := h.step hOrderly.1
    exact ih h' hOrderly.2

theorem exists_serial {schedule : List ι}
    (hOrderly : Trace.Along (Interleaving.step order programs) (Orderly programs Ready) (.init d₀)
      schedule)
    (hr : ∀ i, ¬ ((Interleaving.run order programs (.init d₀) schedule).threads i).UnderWay) :
    ∃ sequence,
      Serial order programs Ready d₀ (Interleaving.run order programs (.init d₀) schedule)
        sequence ∧
      (Interleaving.run order programs (.init d₀) schedule).disk =
        inSequence order programs d₀ sequence := by
  obtain ⟨sequence, h⟩ := inv_init.run hOrderly
  exact ⟨sequence, h.toSerial, h.quiet fun i hc => hr i hc.1⟩

theorem along_replicate (n : Nat) (hr : s.threads i = .waiting → Ready i s.disk)
    (ha : ∀ j, j ≠ i → ¬ (s.threads j).UnderWay) :
    Trace.Along (Interleaving.step order programs) (Orderly programs Ready) s
      (replicate n i) := by
  induction n generalizing s with
  | zero => trivial
  | succ n ih =>
    refine ⟨⟨hr, fun j hj hc => ha j hj hc.1, fun _ _ _ _ => ha⟩, ih ?_ ?_⟩
    · intro hw
      exact absurd hw threads_step_ne_waiting
    · intro j hj
      rw [threads_step_of_ne hj]
      exact ha j hj

end Step

end Spacegate.Foundation.Interleaving
