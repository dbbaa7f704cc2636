import Mathlib.Data.List.Permutation
import Spacegate.Config.FsModify
import Spacegate.Foundation.Interleaving

/-!
# Calls that run side by side

`modify_cached` takes no lock: between reading the directory and writing it again, another
call can read the same directory or write its own.  What is acknowledged then is lost with
the next write, and a call may take a half written directory for the configuration.
-/

namespace Spacegate.Config

open Foundation Interleaving List
open Foundation.DiskM
open Foundation.Interleaving (State Orderly Serial inSequence)
open Foundation.Trace (Along)

namespace Fs

variable {ι G O : Type} (fs : Fs G O) (order : IterOrder) (calls : ι → Call G O)

/-- The file system steps of the calls. -/
def programs (i : ι) : Prog (Except FsError (Config G O)) :=
  ExceptT.run (modifyCached fs (calls i).change)

/-- The configuration after these calls, one after the other. -/
def applied (stored : Except FsError (Config G O)) (sequence : List ι) :
    Except FsError (Config G O) :=
  sequence.foldl (fun config i => config.bind (calls i).change) stored

/-- The sequence explains what is stored and what the calls have seen. -/
structure Serialized (d₀ : Disk) (s : State ι (Except FsError (Config G O)))
    (sequence : List ι) : Prop where
  nodup : sequence.Nodup
  /-- All calls that are acknowledged, and no other. -/
  acknowledged : ∀ i, i ∈ sequence ↔ ∃ config, (s.threads i).result = some (.ok config)
  stored : readConfig fs order s.disk = applied calls (readConfig fs order d₀) sequence
  observed : ∀ before i later, sequence = before ++ i :: later →
    ∃ config, applied calls (readConfig fs order d₀) before = .ok config ∧
      (s.threads i).result = some (.ok config)
  refused : ∀ i e, (s.threads i).result = some (.error e) →
    ∃ before, before <+: sequence ∧
      ∀ changed, (applied calls (readConfig fs order d₀) before).bind (calls i).change ≠
        .ok changed

/-- When no call is under way, some sequence explains everything. -/
def Serializable (d₀ : Disk) (s : State ι (Except FsError (Config G O))) : Prop :=
  (∀ i, ¬ (s.threads i).UnderWay) → ∃ sequence, Serialized fs order calls d₀ s sequence

/-- What the call makes of the stored configuration can be stored. -/
def StoresChange (i : ι) (d : Disk) : Prop :=
  ∀ config changed, readConfig fs order d = .ok config →
    (calls i).change config = .ok changed → Storable fs changed

section Sequence

variable {fs order calls} {d d₀ : Disk} {i : ι}

/-- A call on its own: the change is stored, or refused without a trace. -/
theorem run_programs (h : StoresChange fs order calls i d) :
    (∃ config changed d', readConfig fs order d = .ok config ∧
      (calls i).change config = .ok changed ∧
      (programs fs calls i).run order d = (.ok config, d') ∧
      readConfig fs order d' = .ok changed) ∨
    ∃ e, (programs fs calls i).run order d = (.error e, d) ∧
      ∀ changed, (readConfig fs order d).bind (calls i).change ≠ .ok changed := by
  cases hp : planned fs order (calls i).change d with
  | error e =>
    refine .inr ⟨e, exec_modifyCached_error hp, ?_⟩
    intro changed hChanged
    obtain ⟨config, hc, hChange⟩ := exists_of_bind_eq_ok hChanged
    obtain ⟨stored, hPlugins⟩ := exists_readPlugins_of_readConfig hc
    simp [planned, hPlugins, hc, hChange, bind, Except.bind] at hp
  | ok plan =>
    obtain ⟨stored, config, changed, hPlugins, hc, hChange⟩ := exists_of_planned hp
    have hs := h config changed hc hChange
    obtain ⟨d', he, hSaved⟩ := exec_modifyCached_ok hPlugins hc hChange hs.toSavable
    exact .inl ⟨config, changed, d', hc, hChange, he,
      (readConfig_of_commit_iff hs.toSavable hSaved).mpr hs.toStableNames⟩

/-- Whether a call has returned `Ok`. -/
def isAcknowledged (s : State ι (Except FsError (Config G O))) (i : ι) : Bool :=
  match (s.threads i).result with
  | some (.ok _) => true
  | _ => false

variable {s : State ι (Except FsError (Config G O))} {sequence : List ι}

theorem isAcknowledged_iff :
    isAcknowledged s i = true ↔ ∃ config, (s.threads i).result = some (.ok config) := by
  unfold isAcknowledged
  split
  · rename_i config hr
    simp [hr]
  · rename_i hr
    simpa using hr

theorem not_underWay_of_isAcknowledged (h : isAcknowledged s i = true) :
    ¬ (s.threads i).UnderWay := by
  obtain ⟨config, hr⟩ := isAcknowledged_iff.mp h
  intro huw
  cases ht : s.threads i with
  | waiting => simp [ht, Interleaving.Thread.result] at hr
  | running rest changed =>
    rw [ht] at hr huw
    rw [Interleaving.Thread.underWay_running.mp huw] at hr
    cases hr

theorem applied_concat (stored : Except FsError (Config G O)) :
    applied calls stored (sequence ++ [i]) =
      (applied calls stored sequence).bind (calls i).change :=
  foldl_concat ..

variable (h : Serial order (programs fs calls) (StoresChange fs order calls) d₀ s sequence)

include h

/-- What is stored after a part of the sequence are the acknowledged changes in it. -/
theorem readConfig_inSequence {before later : List ι} (hSequence : sequence = before ++ later) :
    readConfig fs order (inSequence order (programs fs calls) d₀ before) =
      applied calls (readConfig fs order d₀) (before.filter (isAcknowledged s)) := by
  induction before using reverseRecOn generalizing later with
  | nil => rfl
  | append_singleton before i ih =>
    have hs : sequence = before ++ i :: later := by simpa using hSequence
    obtain ⟨hReady, hr⟩ := h.found before i later hs
    rw [inSequence_concat, filter_append]
    rcases run_programs hReady with ⟨config, changed, d', hc, hChange, hRun, hStored⟩ | ⟨e, hRun, -⟩
    · rw [hRun] at hr ⊢
      have hAck : isAcknowledged s i = true := isAcknowledged_iff.mpr ⟨config, hr⟩
      rw [filter_singleton, hAck, cond_true, applied_concat, ← ih hs, hc]
      exact hStored.trans hChange.symm
    · rw [hRun] at hr ⊢
      have hAck : isAcknowledged s i = false := by simp [isAcknowledged, hr]
      rw [filter_singleton, hAck, cond_false, append_nil]
      exact ih hs

theorem serialized_of_serial (hd : s.disk = inSequence order (programs fs calls) d₀ sequence) :
    Serialized fs order calls d₀ s (sequence.filter (isAcknowledged s)) where
  nodup := h.nodup.filter _
  acknowledged := by
    intro i
    rw [mem_filter, isAcknowledged_iff, h.finished i]
    constructor
    · exact And.right
    · rintro ⟨config, hr⟩
      exact ⟨by rw [hr]; rfl, config, hr⟩
  stored := by
    rw [hd]
    exact readConfig_inSequence h (append_nil sequence).symm
  observed := by
    intro before i later hf
    obtain ⟨before', rest, rfl, rfl, hRest⟩ := filter_eq_append_iff.mp hf
    obtain ⟨skipped, later', rfl, hSkipped, hAck, -⟩ := filter_eq_cons_iff.mp hRest
    have hs : before' ++ (skipped ++ i :: later') = (before' ++ skipped) ++ i :: later' := by
      simp
    have hk : (before' ++ skipped).filter (isAcknowledged s) =
        before'.filter (isAcknowledged s) := by
      rw [filter_append, filter_eq_nil_iff.mpr hSkipped, append_nil]
    obtain ⟨hReady, hr⟩ := h.found _ i later' hs
    obtain ⟨config', hOk⟩ := isAcknowledged_iff.mp hAck
    rw [← hk, ← readConfig_inSequence h hs]
    rcases run_programs hReady with ⟨config, changed, d', hc, -, hRun, -⟩ | ⟨e, hRun, -⟩
    · exact ⟨config, hc, by rw [hr, hRun]⟩
    · rw [hRun, hOk] at hr
      cases hr
  refused := by
    intro i e he
    have hMem : i ∈ sequence := (h.finished i).mpr (by rw [he]; rfl)
    obtain ⟨before, later, hs⟩ := append_of_mem hMem
    obtain ⟨hReady, hr⟩ := h.found before i later hs
    refine ⟨before.filter (isAcknowledged s), ?_, ?_⟩
    · rw [hs, filter_append]
      exact prefix_append _ _
    · rw [← readConfig_inSequence h hs]
      rcases run_programs hReady with ⟨config, changed, d', -, -, hRun, -⟩ | ⟨e', -, hRefused⟩
      · rw [hRun, he] at hr
        cases hr
      · exact hRefused

end Sequence

/-- Calls that overlap only while they read, and whose changes can be stored, have the effect
of a sequence of calls. -/
theorem serializable_of_orderly [DecidableEq ι] (d₀ : Disk) (schedule : List ι)
    (hOrderly : Along (Interleaving.step order (programs fs calls))
      (Orderly (programs fs calls) (StoresChange fs order calls)) (.init d₀) schedule) :
    Serializable fs order calls d₀
      (Interleaving.run order (programs fs calls) (.init d₀) schedule) := by
  intro hr
  obtain ⟨sequence, hs, hd⟩ := exists_serial hOrderly hr
  exact ⟨_, serialized_of_serial hs hd⟩

/-! ## Two new gateways -/

def shopAndMail : Bool → Call Unit Unit
  | false => createShop
  | true => .createConfigItemGateway "mail" ()

theorem eq_of_nodup_of_mem {sequence : List Bool} (hn : sequence.Nodup)
    (hMem : ∀ i, i ∈ sequence) : sequence = [false, true] ∨ sequence = [true, false] := by
  have hp : sequence.Perm [false, true] :=
    (perm_ext_iff_of_nodup hn (by decide)).mpr fun i => by simp [hMem i]
  have ho : [false, true].permutations' = [[false, true], [true, false]] := by decide
  rw [← mem_permutations'] at hp
  simpa using hp

/-- The state after a schedule of both calls. -/
def createBoth (schedule : List Bool) : State Bool (Except FsError (Config Unit Unit)) :=
  Interleaving.run .unchanged (programs bracesFs shopAndMail) (.init edgeDir) schedule

theorem shopAndMail_serializable :
    (∀ i, isAcknowledged (createBoth (replicate 25 false ++ replicate 38 true)) i = true) ∧
      Serializable bracesFs .unchanged shopAndMail edgeDir
        (createBoth (replicate 25 false ++ replicate 38 true)) := by
  refine ⟨by decide +kernel, ?_⟩
  apply serializable_of_orderly
  rw [Trace.along_append]
  refine ⟨along_replicate 25 ?_ ?_, along_replicate 38 ?_ ?_⟩
  · intro _ config changed hc hChange
    have he : readConfig bracesFs .unchanged edgeDir = .ok (bareConfig ["edge"]) := rfl
    have hs : createShop.change (bareConfig ["edge"]) = .ok (bareConfig ["edge", "shop"]) := rfl
    cases he.symm.trans hc
    cases hs.symm.trans hChange
    exact storable_bareConfig (by decide)
  · intro i _ huw
    exact huw
  · intro _ config changed hc hChange
    have hs : readConfig bracesFs .unchanged (createBoth (replicate 25 false)).disk =
        .ok (bareConfig ["edge", "shop"]) := rfl
    have hm : (shopAndMail true).change (bareConfig ["edge", "shop"]) =
        .ok (bareConfig ["edge", "mail", "shop"]) := rfl
    cases hs.symm.trans hc
    cases hm.symm.trans hChange
    exact storable_bareConfig (by decide)
  · intro i hi huw
    have hf : i = false := by simpa using hi
    subst hf
    have hAck : isAcknowledged (createBoth (replicate 25 false)) false = true := by
      decide +kernel
    exact not_underWay_of_isAcknowledged hAck huw

/-- The first call reads and performs some operations more, then the second one is performed
as a whole, then the rest of the first. -/
def interrupted (n : Nat) : List Bool :=
  replicate n false ++ replicate 25 true ++ replicate 25 false

def hasGateway (name : String) : Except FsError (Config Unit Unit) → Bool
  | .ok config => (config.gateways.get name).isSome
  | .error _ => false

/-- Both calls are acknowledged.  When the second is performed between the first one's
reading and writing, its gateway is lost.  When it is performed after the first has written
only one file, it takes the directory for one without gateways. -/
theorem shopAndMail_not_serializable :
    ((∀ i, isAcknowledged (createBoth (interrupted 11)) i = true) ∧
      ¬ Serializable bracesFs .unchanged shopAndMail edgeDir (createBoth (interrupted 11))) ∧
    (∀ i, isAcknowledged (createBoth (interrupted 19)) i = true) ∧
      ¬ Serializable bracesFs .unchanged shopAndMail edgeDir (createBoth (interrupted 19)) := by
  have hAck : ∀ i, isAcknowledged (createBoth (interrupted 11)) i = true := by decide +kernel
  have ha' : ∀ i, isAcknowledged (createBoth (interrupted 19)) i = true := by decide +kernel
  refine ⟨⟨hAck, ?_⟩, ha', ?_⟩
  · intro hs
    obtain ⟨sequence, h⟩ := hs fun i => not_underWay_of_isAcknowledged (hAck i)
    have hl : hasGateway "mail"
        (readConfig bracesFs .unchanged (createBoth (interrupted 11)).disk) = false := by
      decide +kernel
    rw [h.stored] at hl
    rcases eq_of_nodup_of_mem h.nodup fun i =>
      (h.acknowledged i).mpr (isAcknowledged_iff.mp (hAck i)) with rfl | rfl
    · revert hl
      decide +kernel
    · revert hl
      decide +kernel
  · intro hs
    obtain ⟨sequence, h⟩ := hs fun i => not_underWay_of_isAcknowledged (ha' i)
    have hh : ((createBoth (interrupted 19)).threads true).result.map (hasGateway "edge") =
        some false := by
      decide +kernel
    rcases eq_of_nodup_of_mem h.nodup fun i =>
      (h.acknowledged i).mpr (isAcknowledged_iff.mp (ha' i)) with rfl | rfl
    · obtain ⟨config, ha, ho⟩ := h.observed [false] true [] rfl
      rw [ho, ← ha] at hh
      revert hh
      decide +kernel
    · obtain ⟨config, ha, ho⟩ := h.observed [] true [false] rfl
      rw [ho, ← ha] at hh
      revert hh
      decide +kernel

end Fs
end Spacegate.Config
