/-
The status a box reports (`voteBox.Status` of `box.go`, `voting.Status` of
`pkg/instruction/voting`) over the life of the box.

The weight is a running counter, the voters are the keys of the map of votes,
and the comments of both say that the weights of the voters sum to the
weight. `delete` clears the map and leaves the counter, so an expired box
reports the weight of voters it no longer lists (`status_iff`). A Go map
assigned nil is the empty map here: the status ranges over it.
-/
import TeeProxy.Voting.History
import TeeProxy.Voting.Tally
import Mathlib.Data.List.Sort

namespace TeeProxy.Voting

/-- `voting.Status`. -/
structure Status where
  instructionHash : Hash
  finalized : Bool
  deleted : Bool
  startTime : UInt64
  endTime : UInt64
  weight : UInt16
  voters : List Address
  threshold : UInt16
  cosigners : UInt16
  cosignersThreshold : UInt16
  deriving DecidableEq, Repr

/-- `voteBox.Status`. The keys of a map are distinct, so any sort gives the
same list. -/
def VoteBox.status (vb : VoteBox) : Status where
  instructionHash := vb.iHash
  finalized := vb.finalized
  deleted := vb.deleted
  startTime := vb.startTime.unixU64
  endTime := vb.endTime.unixU64
  weight := vb.weight
  voters := vb.votes.keys.insertionSort (· ≤ ·)
  threshold := vb.proposal.threshold
  cosigners := vb.cosignerWeight
  cosignersThreshold := vb.proposal.cosignerThreshold

section Box

variable {box : VoteBox}

theorem sorted_voters (box : VoteBox) : box.status.voters.Pairwise (· < ·) := by
  have hle : box.status.voters.Pairwise (· ≤ ·) := List.pairwise_insertionSort (· ≤ ·) _
  have hne : box.status.voters.Pairwise (· ≠ ·) :=
    (List.perm_insertionSort (· ≤ ·) _).nodup_iff.mpr box.votes.nodup_keys
  exact hle.imp₂ (fun a b hle hne => BitVec.lt_of_le_ne hle hne) hne

theorem sum_voters (policy : SigningPolicy) (box : VoteBox) :
    (box.status.voters.map policy.weight).sum = (box.votes.keys.map policy.weight).sum :=
  ((List.perm_insertionSort (· ≤ ·) box.votes.keys).map _).sum_eq

theorem status_delete (box : VoteBox) : box.delete.status = { box.status with deleted := true, voters := [] } := rfl

theorem voters_eq_nil_iff : box.status.voters = [] ↔ box.votes.size = 0 := by
  rw [← List.length_eq_zero_iff, VoteBox.status, List.length_insertionSort]
  rfl

end Box

/-! ## Weights along a run -/

/-- What the signers of votes weigh, before any 16-bit sum. -/
def weightOf (policy : SigningPolicy) (history : List Accepted) : Nat :=
  (history.map fun v => policy.weight v.call.signer).sum

/-- The counter of a box is the weight of the votes it ever took, modulo
`2^16`; its map has these votes until the end. -/
structure Weighed (policy : SigningPolicy) (history : List Accepted) (box : VoteBox) : Prop where
  weight : box.weight.toNat = weightOf policy history % 65536
  votes : box.deleted = false →
    (box.votes.keys.map policy.weight).sum = weightOf policy history ∧ box.votes.size = history.length
  cleared : box.deleted = true → box.votes = ∅

section Runs

variable {dep : Deps} {cyc : CyclicPkg} {cfg : Config}

theorem Weighed.recorded {policy : SigningPolicy} {k : Key} {history : List Accepted} {call : Call} {clock : Clock}
    {box box' : VoteBox} {receipt : Receipt} {reached : Bool} (h : Weighed policy history box)
    (hd : box.deleted = false) (hc : castOn dep policy call clock box = (box', .ok (receipt, reached))) :
    Weighed policy (history ++ [⟨k.round, k.hash, call, clock.vote, reached⟩]) box' := by
  obtain ⟨-, -, hnew, voteHash, r, rfl, -, rfl⟩ := VoteBox.addVote_ok hc
  have hsum : weightOf policy (history ++ [⟨k.round, k.hash, call, clock.vote, reached⟩]) =
      weightOf policy history + policy.weight call.signer := by
    simp [weightOf]
  refine ⟨?_, fun _ => ⟨?_, ?_⟩, fun hdel => ?_⟩
  · change (box.weight + _).toNat = _
    rw [UInt16.toNat_add, voterGroupCheck_weight, h.weight, hsum]
    omega
  · change ((box.votes.set call.signer _).keys.map policy.weight).sum = _
    rw [GoMap.keys_set_new hnew, List.map_cons, List.sum_cons, (h.votes hd).1, hsum, Nat.add_comm]
  · change (box.votes.set call.signer _).size = _
    rw [GoMap.size_set_new hnew, (h.votes hd).2, List.length_append]
    rfl
  · change box.deleted = true at hdel
    rw [hd] at hdel
    cases hdel

theorem boxRule_weighed : BoxRule dep cfg fun policy _ history box => Weighed policy history box where
  opened policy k call now box hb := by
    have hf := buildVoteBox_ok hb
    refine ⟨by rw [hf.weight]; rfl, fun _ => ?_, fun _ => hf.votes⟩
    rw [hf.votes]
    exact ⟨rfl, rfl⟩
  recorded _ _ _ _ _ _ _ _ _ ih hd hc := ih.recorded hd hc
  refused _ _ _ _ _ _ _ _ ih hd hc := by
    obtain ⟨voteHash, rfl⟩ := VoteBox.addVote_error hc
    exact ⟨ih.weight, ih.votes, ih.cleared⟩
  ended _ _ _ _ ih _ := ⟨ih.weight, fun hdel => (by cases hdel), fun _ => rfl⟩

/-- **The status over the life of a box**, in every reachable state. The
voters are always sorted without repeats. Their weights sum to the reported
weight exactly when the box has not expired and its votes weigh less than
`2^16`, or it has expired and its votes weighed nothing (modulo `2^16`).
Expiry sets `Deleted` and empties the voters, nothing else; a box has votes
until it expires, so it always changes more than `Deleted`. -/
theorem status_iff (s : State cyc) (h : Lts.Reach (system dep cyc cfg) Lts.Free s) (k : Key) (r : Round) (box : VoteBox)
    (hr : s.storage.rounds[k.round]? = some r) (hb : r.box? k.id k.hash = some box) :
    box.status.voters.Pairwise (· < ·) ∧
    (box.status.weight.toNat = (box.status.voters.map r.policy.weight).sum ↔
      if box.deleted then weightOf r.policy (votesOf s.accepted k) % 65536 = 0
      else weightOf r.policy (votesOf s.accepted k) < 65536) ∧
    box.delete.status = { box.status with deleted := true, voters := [] } ∧
    (box.delete.status = { box.status with deleted := true } ↔ box.deleted = true) := by
  obtain ⟨hne, hw⟩ := (box_invariant boxRule_weighed h).stored k r box hr hb
  refine ⟨sorted_voters box, ?_, status_delete box, ?_⟩
  · rw [sum_voters]
    change box.weight.toNat = _ ↔ _
    rw [hw.weight]
    cases hd : box.deleted with
    | true =>
      rw [hw.cleared hd]
      exact Iff.rfl
    | false =>
      rw [(hw.votes hd).1, if_neg (by simp)]
      omega
  · have hvoters : box.delete.status = { box.status with deleted := true } ↔ box.status.voters = [] := by
      rw [status_delete]
      constructor
      · intro heq
        exact (congrArg Status.voters heq).symm
      · intro hnil
        exact congrArg (fun voters => { box.status with deleted := true, voters }) hnil.symm
    rw [hvoters, voters_eq_nil_iff]
    cases hd : box.deleted with
    | true => rw [hw.cleared hd]; simp
    | false =>
      rw [(hw.votes hd).2, List.length_eq_zero_iff]
      simp [hne]

end Runs

theorem status_iff_bothVote :
    ∃ s, Lts.Reach (system plainDeps .slots plainConfig) Lts.Free s ∧
      ∃ r box, s.storage.rounds[0]? = some r ∧ r.box? 1 6 = some box ∧ box.status.voters = [1, 2] ∧
        box.status.weight.toNat = (box.status.voters.map r.policy.weight).sum := by
  have hrun : ((system plainDeps .slots plainConfig).run (start .slots plainConfig) bothVote).isSome := rfl
  have hreach : Lts.Reach (system plainDeps .slots plainConfig) Lts.Free _ :=
    .of_run (.init rfl) (fun _ _ _ => trivial) (Option.some_get hrun).symm
  refine ⟨_, hreach, _, _, rfl, rfl, rfl, (status_iff _ hreach ⟨0, 1, 6⟩ _ _ rfl rfl).2.1.mpr ?_⟩
  change 4 < 65536
  decide

/-- Two voters of weight two vote and their box expires. Before, it reports
both with weight four; after, no voter and still weight four. -/
theorem status_after_expiry :
    ∃ (s s' : State .slots) (r r' : Round) (box box' : VoteBox),
      Lts.Reach (system plainDeps .slots plainConfig) Lts.Free s ∧
      (system plainDeps .slots plainConfig).step s (.scheduleEnd ⟨0, 1, 6⟩) = some s' ∧
      s.storage.rounds[0]? = some r ∧ r.box? 1 6 = some box ∧
      s'.storage.rounds[0]? = some r' ∧ r'.box? 1 6 = some box' ∧
      box.status.weight = 4 ∧ box.status.voters = [1, 2] ∧ [1, 2].map r.policy.weight = [2, 2] ∧
      box'.status.deleted = true ∧ box'.status.weight = 4 ∧ box'.status.voters = [] := by
  have hrun : ((system plainDeps .slots plainConfig).run (start .slots plainConfig) bothVote).isSome := rfl
  exact ⟨_, _, _, _, _, _, .of_run (.init rfl) (fun _ _ _ => trivial) (Option.some_get hrun).symm,
    rfl, rfl, rfl, rfl, rfl, rfl, rfl, rfl, rfl, rfl, rfl⟩

end TeeProxy.Voting
