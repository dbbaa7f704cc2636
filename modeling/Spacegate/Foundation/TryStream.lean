import Mathlib.Data.List.Basic

/-!
# Loops over a stream of results

A loop takes items from a stream and ends when there is none.  In `tryLoop` an error
looks like the end of the stream; whether anything is lost by that depends on what
follows the errors only, whatever the body does.
-/

namespace Spacegate.Foundation.TryStream

variable {ε α σ β : Type*}

/-- The values of a stream. -/
def oks : List (Except ε α) → List α
  | [] => []
  | .ok a :: items => a :: oks items
  | .error _ :: items => oks items

/-- The stream without its errors. -/
def withoutErrors (items : List (Except ε α)) : List (Except ε α) :=
  (oks items).map .ok

/-- No value comes after an error. -/
def ErrorsLast : List (Except ε α) → Prop
  | [] => True
  | .ok _ :: items => ErrorsLast items
  | .error _ :: items => oks items = []

/-- `while let Some(item) = stream.try_next().unwrap_or_default()`: the final state, and
for every value that was handled what the body put out. -/
def tryLoop (body : σ → α → σ × List β) : σ → List (Except ε α) → σ × List (α × List β)
  | s, [] => (s, [])
  | s, .ok a :: items =>
    let handled := body s a
    let rest := tryLoop body handled.1 items
    (rest.1, (a, handled.2) :: rest.2)
  -- `unwrap_or_default` makes `None` of an error
  | s, .error _ :: _ => (s, [])

variable {body : σ → α → σ × List β}

theorem handled_withoutErrors (s : σ) (items : List (Except ε α)) :
    (tryLoop body s (withoutErrors items)).2.map (·.1) = oks items := by
  unfold withoutErrors
  generalize oks items = values
  induction values generalizing s with
  | nil => rfl
  | cons a values ih => exact congrArg (a :: ·) (ih _)

/-- The loop does the same with and without the errors exactly if no value comes after
one of them. -/
theorem tryLoop_eq_withoutErrors_iff (s : σ) (items : List (Except ε α)) :
    tryLoop body s items = tryLoop body s (withoutErrors items) ↔ ErrorsLast items := by
  induction items generalizing s with
  | nil => exact iff_of_true rfl trivial
  | cons item items ih =>
    cases item with
    | ok a =>
      have hr := ih (body s a).1
      simp only [withoutErrors, oks, List.map_cons, tryLoop, ErrorsLast, Prod.ext_iff,
        List.cons.injEq, true_and] at hr ⊢
      exact hr
    | error e =>
      have hs : tryLoop body s (.error e :: items) = (s, []) := rfl
      have hOks : withoutErrors (.error e :: items) = withoutErrors items := rfl
      rw [hOks]
      constructor
      · intro h
        change oks items = []
        rw [← handled_withoutErrors, ← h]
        rfl
      · intro h
        have hn : withoutErrors items = [] := by
          rw [withoutErrors, show oks items = [] from h]
          rfl
        rw [hn]
        rfl

end Spacegate.Foundation.TryStream
