import Spacegate.Kernel.UpstreamTarget

/-!
# Balancing without a panic

`Random::new` expects that a `WeightedIndex` can be made of the weights of the backends, and
panics otherwise, while the routes are loaded.  The other policies take no weights, and all of
them leave an empty list of backends to the fallback before they divide by its length.  So a rule
is built and served without a panic exactly when it does not balance at random over weights of
which no index can be made (`noPanic_iff`).
-/

namespace Spacegate.Kernel

open HttpRouteRule

variable {Regex X Out : Type}

/-- Weights of which the documentation of `WeightedIndex::new` says that an index can be made:
there are some, not all of them are zero, and their sum is a weight again. -/
def ValidWeights (weights : List UInt16) : Prop :=
  0 < (weights.map (·.toNat)).sum ∧ (weights.map (·.toNat)).sum < 2 ^ 16

instance (weights : List UInt16) : Decidable (ValidWeights weights) :=
  inferInstanceAs (Decidable (_ ∧ _))

/-! ## Picking an instance -/

/-- The remainder of a hash by a length; a panic (`none`) if the length is zero. -/
def checkedIndex (hash : UInt64) (length : Nat) : Option Nat :=
  if length = 0 then none else some (hashIndex hash length)

variable (rt : Runtime Regex X Out)

/-- The position that the peer's address selects, with the panic outside. -/
def checkedPeerIndex (instances : Nat) (req : SgRequest Regex X) : Option (Option Nat) :=
  match req.extensions.peerAddr with
  | some ip => (checkedIndex (rt.hashIp ip.toCanonical) instances).map some
  | none => some none

/-- `BalancePolicy::pick` of the three policies, with the panic outside.  What is drawn or hashed
is looked up with `get`. -/
def BalancePolicyEnum.checkedPick (weights : List UInt16)
    (policy : BalancePolicyEnum) (instances : Nat) (req : SgRequest Regex X) :
    Option (Option Nat) :=
  if instances = 0 then some none
  else if instances = 1 then some (some 0)
  else
    let index :=
      match policy with
      | .random => some (some (rt.sample weights))
      | .ipHash => checkedPeerIndex rt instances req
      | .mcpSession =>
        match HeaderMap.get req.headers "mcp-session-id" with
        | some session => (checkedIndex (rt.hashBytes session.bytes) instances).map some
        | none => checkedPeerIndex rt instances req
    index.map (·.filter (· < instances))

theorem checkedPeerIndex_eq {instances : Nat} (h : instances ≠ 0) (req : SgRequest Regex X) :
    checkedPeerIndex rt instances req = some (peerIndex rt instances req) := by
  unfold checkedPeerIndex peerIndex
  cases req.extensions.peerAddr with
  | none => rfl
  | some ip => simp [checkedIndex, h]

/-- No policy divides by zero. -/
theorem BalancePolicyEnum.checkedPick_eq (weights : List UInt16)
    (policy : BalancePolicyEnum) (instances : Nat) (req : SgRequest Regex X) :
    policy.checkedPick rt weights instances req = some (policy.pick rt weights instances req) := by
  unfold checkedPick pick
  by_cases hn : instances = 0
  · rw [if_pos hn, if_pos hn]
  · rw [if_neg hn, if_neg hn]
    by_cases hOne : instances = 1
    · rw [if_pos hOne, if_pos hOne]
    · rw [if_neg hOne, if_neg hOne]
      cases policy with
      | random => rfl
      | ipHash => simp [checkedPeerIndex_eq rt hn]
      | mcpSession =>
        cases HeaderMap.get req.headers "mcp-session-id" with
        | none => simp [checkedPeerIndex_eq rt hn]
        | some session => simp [checkedIndex, hn]

/-! ## Building and serving -/

/-- The weights of the backends of a rule. -/
def HttpRouteRule.weights (rule : HttpRouteRule Regex X Out) : List UInt16 :=
  rule.backends.map (·.weight)

variable (rule : HttpRouteRule Regex X Out)

/-- The service of the rule is built, and picks an instance, or none, for every request. -/
def HttpRouteRule.NoPanic : Prop :=
  rule.asService rt ≠ none ∧
    ∀ req, rule.balancePolicy.checkedPick rt rule.weights rule.backends.length req ≠ none

theorem HttpRouteRule.asService_ne_none_iff :
    rule.asService rt ≠ none ↔
      (rule.balancePolicy = .random → rt.weightedIndexOk rule.weights = true) := by
  unfold asService
  simp only
  split
  · rename_i hp
    simp [hp.1, weights, hp.2]
  · rename_i hOk
    simp only [ne_eq, reduceCtorEq, not_false_iff, true_iff]
    intro hr
    simpa [weights, hr] using hOk

/-- For an index that is made as documented, a rule is built and served without a panic exactly
when it does not balance at random or has valid weights. -/
theorem noPanic_iff (rt : Runtime Regex X Out)
    (hIndex : ∀ weights, rt.weightedIndexOk weights = true ↔ ValidWeights weights)
    (rule : HttpRouteRule Regex X Out) :
    rule.NoPanic rt ↔ (rule.balancePolicy = .random → ValidWeights rule.weights) := by
  have hp : ∀ req,
      rule.balancePolicy.checkedPick rt rule.weights rule.backends.length req ≠ none := by
    intro req
    rw [BalancePolicyEnum.checkedPick_eq]
    simp
  rw [HttpRouteRule.NoPanic, asService_ne_none_iff, hIndex]
  exact ⟨fun h => h.1, fun h => ⟨h, hp⟩⟩

/-- A runtime that makes indices as documented. -/
def weighingRuntime : Runtime LiteralRegex Unit Unit :=
  { plainRuntime with weightedIndexOk := fun weights => decide (ValidWeights weights) }

/-- A rule that balances over backends with the given weights. -/
def weightedRule (policy : BalancePolicyEnum) (weights : List UInt16) :
    HttpRouteRule LiteralRegex Unit Unit where
  «match» := none
  plugins := []
  timeout := .default
  backends := weights.map fun weight =>
    { plugins := [], backend := .http none none none none, weight := weight, timeout := .default }
  balancePolicy := policy

theorem weightedRule_noPanic :
    (∀ weights, weighingRuntime.weightedIndexOk weights = true ↔ ValidWeights weights) ∧
      (weightedRule .random [0, 3]).NoPanic weighingRuntime := by
  have hi : ∀ weights, weighingRuntime.weightedIndexOk weights = true ↔ ValidWeights weights := by
    intro weights
    exact decide_eq_true_iff
  exact ⟨hi, (noPanic_iff weighingRuntime hi _).mpr fun _ => by decide⟩

/-- Balancing at random over no backend, or over one of weight zero, panics. -/
theorem weightless_panics :
    ¬ (weightedRule .random []).NoPanic weighingRuntime ∧
      ¬ (weightedRule .random [0]).NoPanic weighingRuntime :=
  ⟨fun h => h.1 rfl, fun h => h.1 rfl⟩

end Spacegate.Kernel
