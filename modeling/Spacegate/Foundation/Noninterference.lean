import Mathlib.Logic.Basic

/-!
# Calls that do not notice each other

Calls answer and change a state.  Some of them are left out.  A relation between the state
with them and the state without them that every call keeps, and under which the calls that are
watched answer the same, shows that leaving them out changes no answer.
-/

namespace Spacegate.Foundation.Noninterference

variable {σ C A : Type}

section Answers

variable (step : C → σ → A × σ)

/-- The answers to the calls that are watched, in a run of all of them. -/
def answers (watched : C → Bool) : σ → List C → List A
  | _, [] => []
  | s, call :: calls =>
    if watched call then (step call s).1 :: answers watched (step call s).2 calls
    else answers watched (step call s).2 calls

end Answers

/-- The states are alike for all calls that are not left out. -/
structure Unwinding (step : C → σ → A × σ) (watched leftOut : C → Bool)
    (Alike : σ → σ → Prop) : Prop where
  /-- A call that is left out is not watched, and not noticed. -/
  unnoticed : ∀ call s s', leftOut call = true → Alike s s' →
    watched call = false ∧ Alike (step call s).2 s'
  kept : ∀ call s s', leftOut call = false → Alike s s' → Alike (step call s).2 (step call s').2
  answer : ∀ call s s', watched call = true → Alike s s' → (step call s).1 = (step call s').1

theorem Unwinding.answers_filter {step : C → σ → A × σ} {watched leftOut : C → Bool}
    {Alike : σ → σ → Prop} (h : Unwinding step watched leftOut Alike) {s s' : σ}
    (hs : Alike s s') (calls : List C) : answers step watched s calls =
      answers step watched s' (calls.filter fun call => !leftOut call) := by
  induction calls generalizing s s' with
  | nil => rfl
  | cons call calls ih =>
    cases hl : leftOut call with
    | true =>
      -- only the first run makes this call
      obtain ⟨hNot, hAlike⟩ := h.unnoticed call s s' hl hs
      simpa [answers, hl, hNot] using ih hAlike
    | false =>
      have ht := ih (h.kept call s s' hl hs)
      cases hw : watched call with
      | true =>
        have ha := h.answer call s s' hw hs
        simp [answers, hl, hw, ha, ht]
      | false => simp [answers, hl, hw, ht]

end Spacegate.Foundation.Noninterference
