import Mathlib.Data.List.Basic

/-!
# Properties of every position of a trace

A deterministic machine reads items one by one.  `Along step P s items` says that `P`
holds of every item together with the state in which it is read.
-/

namespace Spacegate.Foundation.Trace

open List

variable {σ ι : Type*} (step : σ → ι → σ)

def Along (P : σ → ι → Prop) : σ → List ι → Prop
  | _, [] => True
  | s, item :: items => P s item ∧ Along P (step s item) items

instance Along.decidable {P : σ → ι → Prop} [∀ s item, Decidable (P s item)] :
    (s : σ) → (items : List ι) → Decidable (Along step P s items)
  | _, [] => .isTrue trivial
  | s, item :: items =>
    @instDecidableAnd _ _ inferInstance (Along.decidable (step s item) items)

variable {step} {V P Q : σ → ι → Prop} {s : σ}

theorem along_append {items later : List ι} : Along step P s (items ++ later) ↔
      Along step P s items ∧ Along step P (items.foldl step s) later := by
  induction items generalizing s with
  | nil => simp [Along]
  | cons item items ih => simp [Along, ih, and_assoc]

variable {items : List ι}

theorem along_of_forall (h : ∀ s item, P s item) : Along step P s items := by
  induction items generalizing s with
  | nil => trivial
  | cons item items ih => exact ⟨h s item, ih⟩

theorem Along.foldl {Inv : σ → Prop} (h : Along step V s items)
    (hs : Inv s) (hInv : ∀ s item, Inv s → V s item → Inv (step s item)) :
    Inv (items.foldl step s) := by
  induction items generalizing s with
  | nil => exact hs
  | cons item items ih => exact ih h.2 (hInv s item hs h.1)

theorem along_iff_of_inv (Inv : σ → Prop) (hInv : ∀ s item, Inv s → V s item → Inv (step s item))
    (hIff : ∀ s item, Inv s → V s item → (P s item ↔ Q s item)) (hs : Inv s)
    (hv : Along step V s items) :
    Along step P s items ↔ Along step Q s items := by
  induction items generalizing s with
  | nil => exact Iff.rfl
  | cons item items ih =>
    obtain ⟨hi, hItems⟩ := hv
    exact and_congr (hIff s item hs hi) (ih (hInv s item hs hi) hItems)

/-- Two properties agree as long as they hold. -/
theorem along_congr (Inv : σ → Prop) (hInv : ∀ s item, Inv s → Q s item → Inv (step s item))
    (hIff : ∀ s item, Inv s → (P s item ↔ Q s item)) (hs : Inv s) :
    Along step P s items ↔ Along step Q s items := by
  induction items generalizing s with
  | nil => exact Iff.rfl
  | cons item items ih =>
    rw [Along, Along, hIff s item hs]
    exact and_congr_right fun hItem => ih (hInv s item hs hItem)

/-- Something holds in every state that is reached. -/
theorem along_step_iff {G : σ → Prop} (hs : G s) :
    Along step (fun s item => G (step s item)) s items ↔
      ∀ earlier later, items = earlier ++ later → G (earlier.foldl step s) := by
  induction items generalizing s with
  | nil =>
    refine ⟨fun _ earlier later h => ?_, fun _ => trivial⟩
    obtain ⟨rfl, -⟩ := append_eq_nil_iff.mp h.symm
    exact hs
  | cons item items ih =>
    constructor
    · rintro ⟨hItem, hi⟩ earlier later h
      cases earlier with
      | nil => exact hs
      | cons first earlier =>
        obtain ⟨rfl, rfl⟩ := cons.inj h
        exact (ih hItem).mp hi earlier later rfl
    · intro h
      have hItem : G (step s item) := h [item] items rfl
      refine ⟨hItem, (ih hItem).mpr ?_⟩
      intro earlier later hi
      exact h (item :: earlier) later (by rw [hi]; rfl)

theorem reached_iff_along {Inv G : σ → Prop} {C : σ → ι → Prop} (hg : ∀ s, Inv s → G s)
    (hStep : ∀ s item, Inv s → C s item → Inv (step s item))
    (ho : ∀ s item, Inv s → G (step s item) → C s item) (hs : Inv s) :
    (∀ earlier later, items = earlier ++ later → G (earlier.foldl step s)) ↔
      Along step C s items := by
  rw [← along_step_iff (hg s hs)]
  induction items generalizing s with
  | nil => exact Iff.rfl
  | cons item items ih =>
    constructor
    · rintro ⟨hItem, hi⟩
      have hC := ho s item hs hItem
      exact ⟨hC, (ih (hStep s item hs hC)).mp hi⟩
    · rintro ⟨hC, hi⟩
      have hInv := hStep s item hs hC
      exact ⟨hg _ hInv, (ih hInv).mpr hi⟩

/-! ## Histories -/

/-- Every event of a history, the latest of which comes first, is justified by those before
it. -/
def Justified (P : List ι → ι → Prop) (history : List ι) : Prop :=
  ∀ later event earlier, history = later ++ event :: earlier → P earlier event

variable {P : List ι → ι → Prop}

theorem justified_nil : Justified P [] := by
  intro later event earlier h
  simp at h

theorem Justified.cons {history : List ι} {event : ι}
    (h : Justified P history) (he : P history event) : Justified P (event :: history) := by
  intro later event' earlier hh
  cases later with
  | nil =>
    obtain ⟨rfl, rfl⟩ := cons.inj hh
    exact he
  | cons first later => exact h later event' earlier (cons.inj hh).2

end Spacegate.Foundation.Trace
