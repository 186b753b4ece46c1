/-
Weighted ballots: voters with weights, a subset of them counted by head, and
a rule that passes when the weight is above one threshold and the head count
reaches another. A set of voters only grows, so a rule that has passed stays
passed.
-/
import Mathlib.Algebra.Order.BigOperators.Group.Finset
import Mathlib.Tactic.Common

namespace Ballot

variable {α : Type}

/-- Who votes with which weight, and what a ballot needs to pass. -/
structure Rule (α : Type) where
  weight : α → Nat
  threshold : Nat
  /-- The voters counted by head. -/
  cosigner : α → Bool
  cosignerThreshold : Nat

/-- The weight of a set of voters. -/
def Rule.tally (R : Rule α) (V : Finset α) : Nat := ∑ a ∈ V, R.weight a

/-- The head count of a set of voters. -/
def Rule.heads (R : Rule α) (V : Finset α) : Nat := (V.filter fun a => R.cosigner a).card

/-- What closes the ballot. -/
def Rule.Passed (R : Rule α) (V : Finset α) : Prop :=
  R.threshold < R.tally V ∧ R.cosignerThreshold ≤ R.heads V

variable {R : Rule α} {V W : Finset α}

theorem Rule.tally_insert [DecidableEq α] {a : α} (h : a ∉ V) : R.tally (insert a V) = R.weight a + R.tally V :=
  Finset.sum_insert h

theorem Rule.heads_insert [DecidableEq α] {a : α} (h : a ∉ V) :
    R.heads (insert a V) = (if R.cosigner a then 1 else 0) + R.heads V := by
  unfold Rule.heads
  rw [Finset.filter_insert]
  split
  · rw [Finset.card_insert_of_notMem (fun hm => h (Finset.mem_filter.mp hm).1), Nat.add_comm]
  · rw [Nat.zero_add]

theorem Rule.tally_mono (h : V ⊆ W) : R.tally V ≤ R.tally W := Finset.sum_le_sum_of_subset h

theorem Rule.heads_mono (h : V ⊆ W) : R.heads V ≤ R.heads W :=
  Finset.card_le_card (Finset.filter_subset_filter _ h)

theorem Rule.Passed.mono (h : V ⊆ W) (hp : R.Passed V) : R.Passed W :=
  ⟨Nat.lt_of_lt_of_le hp.1 (Rule.tally_mono h), Nat.le_trans hp.2 (Rule.heads_mono h)⟩

theorem Rule.not_passed_empty : ¬ R.Passed ∅ := fun h => Nat.not_lt_zero _ h.1

theorem Rule.heads_le_of_cover {U : Finset α} (h : ∀ a, R.cosigner a = true → a ∈ U) : R.heads V ≤ U.card :=
  Finset.card_le_card fun a ha => h a (Finset.mem_filter.mp ha).2

end Ballot
