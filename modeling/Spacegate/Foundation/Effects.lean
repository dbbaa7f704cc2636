import Mathlib.Data.List.Basic
import Spacegate.Foundation.Traverse

/-!
# Computations with effects

A computation performs effects one after the other and returns a value or an error; the
effects it has performed before an error stay.  Two computations that run side by side are
both carried to their ends, and their effects come in any order that keeps the order of each.
-/

namespace Spacegate.Foundation

open List

structure Effects (η ε α : Type) where
  performed : List η
  result : Except ε α

namespace Effects

variable {η θ ε α β : Type}

instance : Monad (Effects η ε) where
  pure a := { performed := [], result := .ok a }
  bind x f :=
    match x.result with
    | .error e => { performed := x.performed, result := .error e }
    | .ok a => { performed := x.performed ++ (f a).performed, result := (f a).result }

def ofExcept (x : Except ε α) : Effects η ε α where
  performed := []
  result := x

def fail (e : ε) : Effects η ε α :=
  ofExcept (.error e)

def perform (effect : η) (result : Except ε α) : Effects η ε α where
  performed := [effect]
  result := result

/-- One more effect at the end, if there was an error. -/
def onError (effect : η) (x : Effects η ε α) : Effects η ε α :=
  match x.result with
  | .error _ => { x with performed := x.performed ++ [effect] }
  | .ok _ => x

def mapEffects (f : η → θ) (x : Effects η ε α) : Effects θ ε α where
  performed := x.performed.map f
  result := x.result

variable {x : Effects η ε α} {f : α → Effects η ε β}

@[simp] theorem result_pure (a : α) : (pure a : Effects η ε α).result = .ok a := rfl

@[simp] theorem performed_pure (a : α) : (pure a : Effects η ε α).performed = [] := rfl

@[simp] theorem result_bind (x : Effects η ε α) (f : α → Effects η ε β) :
    (x >>= f).result = x.result >>= fun a => (f a).result := by
  obtain ⟨performed, result⟩ := x
  cases result with
  | error e => rfl
  | ok a => rfl

theorem bind_of_ok {a : α} (h : x.result = .ok a) (f : α → Effects η ε β) :
    (x >>= f).performed = x.performed ++ (f a).performed := by
  obtain ⟨performed, result⟩ := x
  subst h
  rfl

theorem bind_of_error {e : ε} (h : x.result = .error e) (f : α → Effects η ε β) :
    (x >>= f).performed = x.performed := by
  obtain ⟨performed, result⟩ := x
  subst h
  rfl

theorem mem_performed_bind {effect : η} (h : effect ∈ x.performed) (f : α → Effects η ε β) :
    effect ∈ (x >>= f).performed := by
  cases hx : x.result with
  | error e => rwa [bind_of_error hx]
  | ok a =>
    rw [bind_of_ok hx]
    exact mem_append_left _ h

theorem bind_assoc {γ : Type} (x : Effects η ε α) (f : α → Effects η ε β)
    (g : β → Effects η ε γ) : (x >>= f) >>= g = x >>= fun a => f a >>= g := by
  obtain ⟨performed, _ | a⟩ := x
  · rfl
  · cases h : (f a).result <;> simp [bind, h]

@[simp] theorem performed_bind_pure (x : Effects η ε α) (f : α → β) :
    (x >>= fun a => pure (f a)).performed = x.performed := by
  cases h : x.result with
  | error e => rw [bind_of_error h]
  | ok a => rw [bind_of_ok h, performed_pure, append_nil]

theorem performed_ofExcept_bind {x : Except ε α} (h : ∀ a, (f a).performed = []) :
    (ofExcept x >>= f).performed = [] := by
  cases x with
  | error e => rfl
  | ok a => exact h a

@[simp] theorem result_onError (effect : η) (x : Effects η ε α) :
    (x.onError effect).result = x.result := by
  unfold onError
  split <;> rfl

theorem performed_onError_of_ok {effect : η} {a : α} (h : x.result = .ok a) :
    (x.onError effect).performed = x.performed := by
  unfold onError
  rw [h]

/-! ## Success -/

def Succeeds (x : Effects η ε α) : Prop :=
  ∃ a, x.result = .ok a

theorem succeeds_pure (a : α) : (pure a : Effects η ε α).Succeeds := ⟨a, rfl⟩

theorem succeeds_bind_iff : (x >>= f).Succeeds ↔ ∃ a, x.result = .ok a ∧ (f a).Succeeds := by
  unfold Succeeds
  rw [result_bind]
  constructor
  · rintro ⟨b, h⟩
    obtain ⟨a, ha, hb⟩ := exists_of_bind_eq_ok h
    exact ⟨a, ha, b, hb⟩
  · rintro ⟨a, ha, b, hb⟩
    exact ⟨b, by rw [ha]; exact hb⟩

theorem succeeds_bind_iff_and {P : Prop} (h : ∀ a, (f a).Succeeds ↔ P) :
    (x >>= f).Succeeds ↔ x.Succeeds ∧ P := by
  rw [succeeds_bind_iff]
  constructor
  · rintro ⟨a, ha, hf⟩
    exact ⟨⟨a, ha⟩, (h a).mp hf⟩
  · rintro ⟨⟨a, ha⟩, hP⟩
    exact ⟨a, ha, (h a).mpr hP⟩

/-- The computation returns a value with a property in one case, and fails otherwise. -/
def SucceedsIf (P : Prop) (Q : α → Prop) (x : Effects η ε α) : Prop :=
  (P ∧ ∃ a, x.result = .ok a ∧ Q a) ∨ ¬ P ∧ ∃ e, x.result = .error e

theorem SucceedsIf.succeeds_bind_iff {P R : Prop} {Q : α → Prop} (h : SucceedsIf P Q x)
    (hf : ∀ a, Q a → ((f a).Succeeds ↔ R)) : (x >>= f).Succeeds ↔ P ∧ R := by
  rw [Succeeds, result_bind]
  rcases h with ⟨hP, a, hx, hQ⟩ | ⟨hP, e, hx⟩
  · rw [hx, and_iff_right hP]
    exact hf a hQ
  · rw [hx]
    exact iff_of_false (by rintro ⟨_, h⟩; cases h) fun h => hP h.1

theorem forall_error_iff {P : Prop} : (∀ e, x.result = .error e → P) ↔ x.Succeeds ∨ P := by
  unfold Succeeds
  cases x.result with
  | error e => simp
  | ok a => simp

/-! ## Side by side -/

/-- Two lists of effects as one.  In the order `true` stands for the first list, and when the
next effect is missing there the rest follows. -/
def merge : List Bool → List η → List θ → List (η ⊕ θ)
  | true :: order, x :: xs, ys => .inl x :: merge order xs ys
  | false :: order, xs, y :: ys => .inr y :: merge order xs ys
  | _, xs, ys => xs.map .inl ++ ys.map .inr

/-- `join!`: both computations are carried to their ends. -/
def join {ε' : Type} (order : List Bool) (x : Effects η ε α) (y : Effects θ ε' β) {ε'' : Type} :
    Effects (η ⊕ θ) ε'' (Except ε α × Except ε' β) where
  performed := merge order x.performed y.performed
  result := .ok (x.result, y.result)

theorem succeeds_join_bind {ε' ε'' γ : Type} {order : List Bool} {y : Effects θ ε' β}
    {f : Except ε α × Except ε' β → Effects (η ⊕ θ) ε'' γ} :
    (join order x y >>= f).Succeeds ↔ (f (x.result, y.result)).Succeeds := by
  rw [succeeds_bind_iff]
  constructor
  · rintro ⟨results, hr, hf⟩
    cases Except.ok.inj hr
    exact hf
  · intro hf
    exact ⟨_, rfl, hf⟩

/-- The effects of the second kind. -/
def seconds (effects : List (η ⊕ θ)) : List θ :=
  effects.filterMap Sum.getRight?

@[simp] theorem seconds_append (effects later : List (η ⊕ θ)) :
    seconds (effects ++ later) = seconds effects ++ seconds later := by
  simp [seconds]

@[simp] theorem seconds_map_inl (xs : List η) : seconds (xs.map (.inl : η → η ⊕ θ)) = [] := by
  simp [seconds, filterMap_map, Function.comp_def]

@[simp] theorem seconds_map_inr (ys : List θ) : seconds (ys.map (.inr : θ → η ⊕ θ)) = ys := by
  simp [seconds, filterMap_map, Function.comp_def]

theorem seconds_bind {x : Effects (η ⊕ θ) ε α} {f : α → Effects (η ⊕ θ) ε β}
    (h : seconds x.performed = []) : seconds (x >>= f).performed =
      match x.result with
      | .ok a => seconds (f a).performed
      | .error _ => [] := by
  cases hx : x.result with
  | error e => rw [bind_of_error hx, h]
  | ok a => rw [bind_of_ok hx, seconds_append, h, nil_append]

/-- Whatever the order, the effects of one computation keep theirs. -/
@[simp] theorem seconds_merge (order : List Bool) (xs : List η) (ys : List θ) :
    seconds (merge order xs ys) = ys := by
  induction order, xs, ys using merge.induct with
  | case1 order x xs ys ih =>
    exact ih
  | case2 order xs y ys ih =>
    show y :: seconds (merge order xs ys) = y :: ys
    rw [ih]
  | case3 order xs ys hf hs =>
    have hm : merge order xs ys = xs.map .inl ++ ys.map .inr := by
      unfold merge
      split
      · exact absurd rfl (hf _ _ _ rfl)
      · exact absurd rfl (hs _ _ _ rfl)
      · rfl
    rw [hm, seconds_append, seconds_map_inl, seconds_map_inr, nil_append]

end Effects
end Spacegate.Foundation
