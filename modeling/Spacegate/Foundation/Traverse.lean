import Mathlib.Data.List.Nodup
import Mathlib.Data.List.Perm.Basic

/-!
# Fallible traversals

`iter().map(f).collect::<Result<Vec<_>, _>>()` is `List.mapM`.  A traversal that
returns keeps number and order, and each result comes from the element at its
place.  The argument is the same for every monad in which a returning `bind` can
be taken apart, so it is made once, over such monads.
-/

namespace Spacegate.Foundation

open List

/-- A monad with a notion of returning a value that can be inverted. -/
structure Returning (m : Type → Type) [Monad m] where
  returns : {α : Type} → m α → α → Prop
  pure_inv : ∀ {α : Type} {a b : α}, returns (pure a : m α) b → b = a
  bind_inv : ∀ {α β : Type} {x : m α} {f : α → m β} {b : β},
    returns (x >>= f) b → ∃ a, returns x a ∧ returns (f a) b

/-- Returning is `some` in `Option`. -/
def Returning.option : Returning Option where
  returns x a := x = some a
  pure_inv h := (Option.some.inj h).symm
  bind_inv h := Option.bind_eq_some_iff.mp h

variable {α β ε : Type} {f : α → Except ε β} {xs : List α} {ys : List β} {R : α → β → Prop}

variable {x : Except ε α}

theorem exists_of_bind_eq_ok {b : β} (h : x >>= f = .ok b) : ∃ a, x = .ok a ∧ f a = .ok b := by
  cases x with
  | error e => exact absurd h (by simp [bind, Except.bind])
  | ok a => exact ⟨a, rfl, h⟩

theorem exists_of_map_eq_ok {f : α → β} {b : β} (h : x.map f = .ok b) :
    ∃ a, x = .ok a ∧ b = f a := by
  cases x with
  | error e => exact absurd h (by simp [Except.map])
  | ok a => exact ⟨a, rfl, (Except.ok.inj h).symm⟩

theorem eq_ok_of_mapError_eq_ok {ε' : Type} {f : ε → ε'} {a : α}
    (h : x.mapError f = .ok a) : x = .ok a := by
  cases x with
  | error e => exact absurd h (by simp [Except.mapError])
  | ok b => rw [Except.ok.inj h]

/-- Returning is `ok` in `Except`. -/
def Returning.except (ε : Type) : Returning (Except ε) where
  returns x a := x = .ok a
  pure_inv h := (Except.ok.inj h).symm
  bind_inv h := exists_of_bind_eq_ok h

section Monads

variable {m : Type → Type} [Monad m] [LawfulMonad m]

theorem Returning.forall₂_of_mapM (r : Returning m) {f : α → m β} {xs : List α} {ys : List β}
    (h : r.returns (xs.mapM f) ys) : List.Forall₂ (fun x y => r.returns (f x) y) xs ys := by
  induction xs generalizing ys with
  | nil =>
    rw [mapM_nil] at h
    rw [r.pure_inv h]
    exact .nil
  | cons x xs ih =>
    rw [mapM_cons] at h
    obtain ⟨y, hy, h⟩ := r.bind_inv h
    obtain ⟨ys', hys, h⟩ := r.bind_inv h
    rw [r.pure_inv h]
    exact .cons hy (ih hys)

end Monads

theorem forall₂_of_mapM_some {f : α → Option β} (h : xs.mapM f = some ys) :
    List.Forall₂ (fun x y => f x = some y) xs ys :=
  Returning.option.forall₂_of_mapM h

theorem forall₂_of_mapM_ok (h : xs.mapM f = .ok ys) : List.Forall₂ (fun x y => f x = .ok y) xs ys :=
  (Returning.except ε).forall₂_of_mapM h

theorem mapM_of_forall₂ (h : List.Forall₂ (fun x y => f x = .ok y) xs ys) : xs.mapM f = .ok ys := by
  induction h with
  | nil => rfl
  | cons hxy _ ih =>
    rw [mapM_cons, hxy, ih]
    rfl

theorem exists_mapM_eq_ok (h : ∀ x ∈ xs, ∃ y, f x = .ok y) : ∃ ys, xs.mapM f = .ok ys := by
  induction xs with
  | nil => exact ⟨[], rfl⟩
  | cons x xs ih =>
    obtain ⟨y, hy⟩ := h x mem_cons_self
    obtain ⟨ys, hys⟩ := ih fun x' hx' => h x' (mem_cons_of_mem _ hx')
    exact ⟨y :: ys, by rw [mapM_cons, hy, hys]; rfl⟩

theorem mapM_map_eq_ok {f : β → Except ε α} {g : α → β} (h : ∀ x, f (g x) = .ok x) (xs : List α) :
    (xs.map g).mapM f = .ok xs := by
  induction xs with
  | nil => rfl
  | cons x xs ih =>
    rw [map_cons, mapM_cons, h, ih]
    rfl

/-- A traversal of the same elements in another order returns the same results in
another order. -/
theorem exists_mapM_of_perm {xs' : List α} (hp : xs.Perm xs') (h : xs.mapM f = .ok ys) :
    ∃ ys', xs'.mapM f = .ok ys' ∧ ys.Perm ys' := by
  obtain ⟨ys', hAll, hPerm⟩ := perm_comp_forall₂ hp.symm (forall₂_of_mapM_ok h)
  exact ⟨ys', mapM_of_forall₂ hAll, hPerm.symm⟩

theorem forall₂_iff_of_forall₂ {S : α → β → Prop} {P : α → Prop} (h : List.Forall₂ S xs ys)
    (hIff : ∀ x y, S x y → (R x y ↔ P x)) : List.Forall₂ R xs ys ↔ ∀ x ∈ xs, P x := by
  induction h with
  | nil => simp
  | cons hxy _ ih => simp [hIff _ _ hxy, ih]

theorem exists_mem_of_forall₂ (h : List.Forall₂ R xs ys) {x : α} (hx : x ∈ xs) :
    ∃ y ∈ ys, R x y := by
  induction h with
  | nil => exact absurd hx (by simp)
  | cons hxy _ ih =>
    rcases mem_cons.mp hx with rfl | hx
    · exact ⟨_, mem_cons_self, hxy⟩
    · obtain ⟨y, hy, hR⟩ := ih hx
      exact ⟨y, mem_cons_of_mem _ hy, hR⟩

theorem forall₂_trans {γ : Type} {S : β → γ → Prop} {T : α → γ → Prop}
    (hT : ∀ x y z, R x y → S y z → T x z) {zs : List γ} (h : List.Forall₂ R xs ys)
    (h' : List.Forall₂ S ys zs) : List.Forall₂ T xs zs := by
  induction h generalizing zs with
  | nil =>
    cases h'
    exact .nil
  | cons hxy _ ih =>
    cases h' with
    | cons hyz hr => exact .cons (hT _ _ _ hxy hyz) (ih hr)

/-- A search by a key that no two elements share. -/
theorem find?_key_eq_some {κ : Type} [DecidableEq κ] {key : α → κ} {x : α}
    (h : (xs.map key).Nodup) (hx : x ∈ xs) : xs.find? (key · == key x) = some x := by
  have hSome : (xs.find? (key · == key x)).isSome := find?_isSome.mpr ⟨x, hx, by simp⟩
  obtain ⟨found, hf⟩ := Option.isSome_iff_exists.mp hSome
  rw [hf, inj_on_of_nodup_map h (mem_of_find?_eq_some hf) hx (by simpa using find?_some hf)]

end Spacegate.Foundation
