/-
The counters of a box are the count of its ballot: `weight` is the policy
weight of who voted, `cosignerWeight` the number of cosigners among them, with
no wrap of the 16-bit sums, and a box is finalized exactly when its ballot has
passed. Two bounds keep the sums in range: the policy's weights sum to at most
65535, and a box has at most `maxCosigners` cosigners, because `checkSize`
bounds the declared roster and the metadata never resolves a longer one.
-/
import TeeProxy.Voting.Storage
import TeeProxy.Lib.Ballot

namespace TeeProxy.Voting

open Ballot (Rule)

/-! ## The ballot of a box -/

/-- The rule a box applies: the policy's weights and the proposal's terms. -/
def ballot (policy : SigningPolicy) (p : Proposal) : Rule Address where
  weight := policy.weight
  threshold := p.threshold.toNat
  cosigner := isCosigner p.cosigners
  cosignerThreshold := p.cosignerThreshold.toNat

/-- Who has voted. -/
def VoteBox.signers (box : VoteBox) : Finset Address := box.votes.keys.toFinset

theorem tally_signers (policy : SigningPolicy) (box : VoteBox) :
    (ballot policy box.proposal).tally box.signers = box.votes.sumBy fun a _ => policy.weight a := by
  change ∑ a ∈ box.votes.keys.toFinset, policy.weight a = _
  rw [List.sum_toFinset _ box.votes.nodup_keys, GoMap.sumBy_key]

theorem heads_signers (policy : SigningPolicy) (box : VoteBox) :
    (ballot policy box.proposal).heads box.signers =
      (box.votes.keys.filter (isCosigner box.proposal.cosigners)).length := by
  change (box.votes.keys.toFinset.filter fun a => isCosigner box.proposal.cosigners a = true).card = _
  rw [← List.toFinset_filter, List.toFinset_card_of_nodup (box.votes.nodup_keys.filter _)]

theorem tally_le_weightSum (policy : SigningPolicy) (p : Proposal) (V : Finset Address) :
    (ballot policy p).tally V ≤ policy.weightSum :=
  policy.sum_weight_le V

theorem heads_le_roster (policy : SigningPolicy) (p : Proposal) (V : Finset Address) :
    (ballot policy p).heads V ≤ p.cosigners.size := by
  refine (Rule.heads_le_of_cover (U := p.cosigners.keys.toFinset) fun a ha => ?_).trans
    (List.toFinset_card_le _)
  rw [List.mem_toFinset, GoMap.mem_keys]
  cases hc : p.cosigners.get? a with
  | none => simp [ballot, isCosigner, hc] at ha
  | some b => exact ⟨b, rfl⟩

/-! ## Voter groups -/

section Groups

variable (signer : Address) (policy : SigningPolicy) (cosigners : GoMap Address Bool)

theorem voterGroupCheck_isCosigner :
    (voterGroupCheck signer policy.voters.voterDataMap cosigners).1.isCosigner = isCosigner cosigners signer := by
  unfold voterGroupCheck
  cases policy.voters.voterDataMap.get? signer <;> cases isCosigner cosigners signer <;> rfl

theorem voterGroupCheck_weight :
    (voterGroupCheck signer policy.voters.voterDataMap cosigners).2.toNat = policy.weight signer := by
  unfold voterGroupCheck SigningPolicy.weight
  cases policy.voters.voterDataMap.get? signer <;> rfl

theorem voterGroupCheck_valid
    (h : (voterGroupCheck signer policy.voters.voterDataMap cosigners).1 ≠ .invalidVoter) :
    signer ∈ policy.voters.voters ∨ isCosigner cosigners signer = true := by
  unfold voterGroupCheck at h
  cases hv : policy.voters.voterDataMap.get? signer with
  | some w => exact .inl ((policy.voters.mem_voters signer).mpr (GoMap.mem_keys.mpr ⟨w, hv⟩))
  | none =>
    cases hc : isCosigner cosigners signer with
    | true => exact .inr rfl
    | false => simp [hv, hc, VoterGroup.ofBits] at h

end Groups

/-! ## The invariant -/

/-- The counters of a box agree with its ballot. -/
structure Counted (policy : SigningPolicy) (box : VoteBox) : Prop where
  eligible : ∀ a ∈ box.signers, a ∈ policy.voters.voters ∨ isCosigner box.proposal.cosigners a = true
  weight : box.weight.toNat = (ballot policy box.proposal).tally box.signers
  cosignerWeight : box.cosignerWeight.toNat = (ballot policy box.proposal).heads box.signers
  finalized : box.finalized = true ↔ (ballot policy box.proposal).Passed box.signers
  roster : box.proposal.cosigners.size ≤ maxCosigners

section Preservation

variable {dep : Deps} {policy : SigningPolicy} {box box' : VoteBox} {call : Call} {clock : Clock}

theorem passes_iff_passed (hw : box.weight.toNat = (ballot policy box.proposal).tally box.signers)
    (hc : box.cosignerWeight.toNat = (ballot policy box.proposal).heads box.signers) :
    box.passes = true ↔ (ballot policy box.proposal).Passed box.signers := by
  unfold VoteBox.passes Rule.Passed
  rw [← hw, ← hc, Bool.and_eq_true, decide_eq_true_iff, decide_eq_true_iff, gt_iff_lt, ge_iff_le,
    UInt16.lt_iff_toNat_lt, UInt16.le_iff_toNat_le]
  rfl

theorem Counted.fresh (hf : Fresh dep policy call box) (hsize : box.proposal.cosigners.size ≤ maxCosigners) :
    Counted policy box := by
  have hs : box.signers = ∅ := by rw [VoteBox.signers, hf.votes]; rfl
  refine ⟨fun a ha => ?_, ?_, ?_, ?_, hsize⟩
  · rw [hs] at ha; cases ha
  · rw [hs, hf.weight]; rfl
  · rw [hs, hf.cosignerWeight]; rfl
  · rw [hs, hf.finalized]
    exact ⟨fun h => (nomatch h), fun h => (Rule.not_passed_empty h).elim⟩

theorem Counted.refused {e : VoteErr} (hc : Counted policy box)
    (h : castOn dep policy call clock box = (box', .error e)) : Counted policy box' := by
  obtain ⟨voteHash, rfl⟩ := VoteBox.addVote_error h
  exact ⟨hc.eligible, hc.weight, hc.cosignerWeight, hc.finalized, hc.roster⟩

/-- The writes of an accepted vote of the call. -/
def recordOf (policy : SigningPolicy) (call : Call) (clock : Clock) (box : VoteBox) (voteHash : Hash) : VoteBox :=
  let check := voterGroupCheck call.signer policy.voters.voterDataMap box.proposal.cosigners
  box.record call.signer check.2 (box.nextVote clock.vote call.signature call.data.additionalVariableMessage)
    check.1 voteHash

theorem not_mem_signers {a : Address} (h : box.votes.get? a = none) : a ∉ box.signers := by
  rw [VoteBox.signers, List.mem_toFinset]
  exact GoMap.not_mem_keys.mpr h

theorem signers_recordOf (policy : SigningPolicy) (clock : Clock) (hnew : box.votes.get? call.signer = none)
    (voteHash : Hash) :
    (recordOf policy call clock box voteHash).signers = insert call.signer box.signers := by
  rw [VoteBox.signers, recordOf, VoteBox.record, GoMap.keys_set_new hnew, List.toFinset_cons]
  rfl

/-- The weight does not wrap: it stays a ballot's weight. -/
theorem weight_recordOf (clock : Clock) (hsum : policy.weightSum ≤ 65535) (hnew : box.votes.get? call.signer = none)
    (hw : box.weight.toNat = (ballot policy box.proposal).tally box.signers) (voteHash : Hash) :
    (recordOf policy call clock box voteHash).weight.toNat =
      (ballot policy box.proposal).tally (insert call.signer box.signers) := by
  have hle := tally_le_weightSum policy box.proposal (insert call.signer box.signers)
  rw [Rule.tally_insert (not_mem_signers hnew), ← hw] at hle ⊢
  change policy.weight call.signer + _ ≤ _ at hle
  change (box.weight + _).toNat = policy.weight call.signer + _
  rw [UInt16.toNat_add, voterGroupCheck_weight, Nat.mod_eq_of_lt (by omega), Nat.add_comm]

/-- Nor does the cosigner weight: it stays within the roster. -/
theorem cosignerWeight_recordOf (clock : Clock) (hroster : box.proposal.cosigners.size ≤ maxCosigners)
    (hnew : box.votes.get? call.signer = none)
    (hh : box.cosignerWeight.toNat = (ballot policy box.proposal).heads box.signers) (voteHash : Hash) :
    (recordOf policy call clock box voteHash).cosignerWeight.toNat =
      (ballot policy box.proposal).heads (insert call.signer box.signers) := by
  have hle := (heads_le_roster policy box.proposal (insert call.signer box.signers)).trans hroster
  rw [Rule.heads_insert (not_mem_signers hnew), ← hh] at hle ⊢
  change (if isCosigner box.proposal.cosigners call.signer = true then 1 else 0) + _ ≤ 1024 at hle
  change (if VoterGroup.isCosigner _ = true then box.cosignerWeight + 1 else box.cosignerWeight).toNat =
    (if isCosigner box.proposal.cosigners call.signer = true then 1 else 0) + _
  rw [voterGroupCheck_isCosigner]
  split
  next hcos =>
    rw [if_pos hcos] at hle
    rw [UInt16.toNat_add, UInt16.toNat_one, Nat.mod_eq_of_lt (by omega), Nat.add_comm]
  next => exact (Nat.zero_add _).symm

/-- **The step.** A recorded vote moves the counters as it moves the ballot. -/
theorem Counted.recorded {receipt : Receipt} {reached : Bool} (hsum : policy.weightSum ≤ 65535)
    (hc : Counted policy box) (h : castOn dep policy call clock box = (box', .ok (receipt, reached))) :
    Counted policy box' := by
  obtain ⟨hvg, -, hnew, voteHash, r, hr, -, rfl⟩ := VoteBox.addVote_ok h
  obtain rfl : r = recordOf policy call clock box voteHash := hr
  have hs := signers_recordOf policy clock hnew voteHash
  have hw := weight_recordOf clock hsum hnew hc.weight voteHash
  have hh := cosignerWeight_recordOf clock hc.roster hnew hc.cosignerWeight voteHash
  rw [← hs] at hw hh
  refine ⟨fun a ha => ?_, hw, hh, ?_, hc.roster⟩
  · change a ∈ (recordOf policy call clock box voteHash).signers at ha
    rw [hs, Finset.mem_insert] at ha
    rcases ha with rfl | ha
    · exact voterGroupCheck_valid _ _ _ hvg
    · exact hc.eligible a ha
  · change (box.finalized || (recordOf policy call clock box voteHash).passes) = true ↔
      (ballot policy box.proposal).Passed (recordOf policy call clock box voteHash).signers
    rw [Bool.or_eq_true, passes_iff_passed hw hh, hc.finalized, hs]
    -- the latch: a ballot that had passed has passed with one more vote
    exact or_iff_right_of_imp (Rule.Passed.mono (Finset.subset_insert _ _))

end Preservation

/-! ## Every box of every run -/

section Runs

variable (dep : Deps) (cyc : CyclicPkg) (cfg : Config) (node : NodePkg) (chainID : UInt64)

/-- Calls read their metadata from `meta.New`, at whatever wallet cache. -/
def Wired : State cyc → Event → Prop
  | _, .addVote call => ∃ ws, call.metadata = Meta.new dep.op node ws chainID
  | _, _ => True

variable {dep cyc cfg node chainID}

/-- The roster of a box opened by a checked call is within `maxCosigners`. -/
theorem Fresh.roster {policy : SigningPolicy} {c : Entered} {box : VoteBox} (hf : Fresh dep policy c.call box)
    (hchecked : Checked dep cfg c) (hmeta : ∃ ws, c.call.metadata = Meta.new dep.op node ws chainID) :
    box.proposal.cosigners.size ≤ maxCosigners := by
  obtain ⟨ws, hws⟩ := hmeta
  obtain ⟨t, ht, -, -⟩ := hf.cosigners
  rw [hws] at ht
  exact (Meta.cosignersOf_size ht).trans (checkSize_cosigners hchecked.size)

/-- All boxes that are not deleted are counted. -/
def RoundCounted (r : Round) : Prop :=
  r.policy.weightSum ≤ 65535 → ∀ id hash box, r.box? id hash = some box → box.deleted = false → Counted r.policy box

theorem RoundCounted.setBox {r : Round} {id hash : Hash} {box : VoteBox} (h : RoundCounted r)
    (hbox : r.policy.weightSum ≤ 65535 → box.deleted = false → Counted r.policy box) :
    RoundCounted (r.setBox id hash box) := by
  intro hsum
  exact Round.forall_setBox (P := fun b => b.deleted = false → Counted r.policy b) (h hsum) (hbox hsum)

theorem RoundCounted.finalize {r : Round} {hash : Hash} {call : Call} {box : VoteBox} {voted : Voted}
    (h : RoundCounted r) : RoundCounted (r.finalize dep hash call box voted).1 := by
  intro hsum id hash box hbox
  rw [Round.policy_finalize] at hsum ⊢
  rw [Round.box?_finalize] at hbox
  exact h hsum id hash box hbox

theorem RoundCounted.target {r r₁ : Round} {c : Entered} {clock : Clock} {box : VoteBox} {existsB : Bool}
    (h : RoundCounted r) (ht : Target dep cfg r c.hash c.call clock r₁ box existsB) (hchecked : Checked dep cfg c)
    (hmeta : ∃ ws, c.call.metadata = Meta.new dep.op node ws chainID) :
    RoundCounted r₁ ∧ r₁.policy = r.policy ∧ (r.policy.weightSum ≤ 65535 → Counted r.policy box) := by
  cases ht with
  | stored hb hd => exact ⟨h, rfl, fun hsum => h hsum _ _ _ hb hd⟩
  | opened _ ho =>
    have hf := (startVoteBox_ok ho).2
    exact ⟨h, rfl, fun _ => .fresh hf (hf.roster hchecked hmeta)⟩

theorem roundCounted_of_cast {r r' : Round} {c : Entered} {clock : Clock} {res : Except VoteErr Voted}
    (h : RoundCounted r) (hchecked : Checked dep cfg c)
    (hmeta : ∃ ws, c.call.metadata = Meta.new dep.op node ws chainID)
    (hcast : Cast dep cfg r c.hash c.call clock r' res) : RoundCounted r' := by
  cases hcast with
  | refused | ended | leaked => exact h
  | rejected hb hd hc => exact h.setBox fun hsum _ => (h hsum _ _ _ hb hd).refused hc
  | recorded ht hc =>
    obtain ⟨h₁, hp, hbox⟩ := h.target ht hchecked hmeta
    refine h₁.setBox fun hsum _ => ?_
    rw [hp] at hsum ⊢
    exact (hbox hsum).recorded hsum hc
  | finalized ht hc =>
    obtain ⟨h₁, hp, hbox⟩ := h.target ht hchecked hmeta
    refine (h₁.setBox fun hsum _ => ?_).finalize
    rw [hp] at hsum ⊢
    exact (hbox hsum).recorded hsum hc

theorem roundCounted_of_reach {s : State cyc} (h : Lts.Reach (system dep cyc cfg) (Wired dep cyc node chainID) s) :
    ∀ r ∈ s.storage.rounds, RoundCounted r := by
  refine round_invariant (Q := fun call => ∃ ws, call.metadata = Meta.new dep.op node ws chainID)
    (fun _ _ h => h) RoundCounted ?_ ?_ ?_ ?_ h
  · intro policy _ id hash box hb
    simp [Round.box?, Round.boxes, createRound, newVoteBoxes] at hb
  · rintro r _ ⟨⟩ hr
    exact hr
  · intro _ _ _ _ _ _ _ _ _ _ hchecked hmeta hr hcast
    exact roundCounted_of_cast hr hchecked hmeta (Round.castVote_cast hcast)
  · intro r id hash box hr _ _
    exact hr.setBox fun _ hd => by cases hd

/-- **The counters are the ballot.** In every round of every run, whatever
calls, clocks and ends it had: a box that is not deleted has at most one vote
per signer, all by policy voters or cosigners; its weight is the sum of the
voters' policy weights and its cosigner weight the number of cosigners who
voted, as natural numbers; and it is finalized exactly when both thresholds
are met. -/
theorem box_counters (s : State cyc) (h : Lts.Reach (system dep cyc cfg) (Wired dep cyc node chainID) s)
    (r : Round) (hr : r ∈ s.storage.rounds) (hsum : r.policy.weightSum ≤ 65535) (id hash : Hash) (box : VoteBox)
    (hbox : r.box? id hash = some box) (hd : box.deleted = false) :
    (box.votes.keys.Nodup ∧ ∀ a ∈ box.votes.keys,
      a ∈ r.policy.voters.voters ∨ isCosigner box.proposal.cosigners a = true) ∧
    box.weight.toNat = box.votes.sumBy (fun a _ => r.policy.weight a) ∧
    box.cosignerWeight.toNat = (box.votes.keys.filter (isCosigner box.proposal.cosigners)).length ∧
    (box.finalized = true ↔
      box.weight > box.proposal.threshold ∧ box.cosignerWeight ≥ box.proposal.cosignerThreshold) := by
  have hc := roundCounted_of_reach h r hr hsum id hash box hbox hd
  refine ⟨⟨box.votes.nodup_keys, fun a ha => hc.eligible a (List.mem_toFinset.mpr ha)⟩, ?_, ?_, ?_⟩
  · rw [hc.weight, tally_signers]
  · rw [hc.cosignerWeight, heads_signers]
  · rw [hc.finalized, ← passes_iff_passed hc.weight hc.cosignerWeight, VoteBox.passes, Bool.and_eq_true,
      decide_eq_true_iff, decide_eq_true_iff]

end Runs

/-- Both voters vote on one instruction. -/
def bothVote : List Event :=
  [.storeNewRound (twoVoters 7), .addVote (plainCall 7 1 5 1 [1]), .addVote (plainCall 7 1 5 2 [2]),
    .castVote 0 (clockAt 100), .castVote 0 (clockAt 101)]

theorem wired_bothVote : ∀ e ∈ bothVote, ∀ s, Wired plainDeps .slots .blank 0 s e := by
  intro e he s
  simp only [bothVote, List.mem_cons, List.not_mem_nil, or_false] at he
  rcases he with rfl | rfl | rfl | rfl | rfl
  · trivial
  · exact ⟨_, rfl⟩
  · exact ⟨_, rfl⟩
  · trivial
  · trivial

theorem box_counters_bothVote :
    ∃ s, Lts.Reach (system plainDeps .slots plainConfig) (Wired plainDeps .slots .blank 0) s ∧
      ∃ r ∈ s.storage.rounds, r.policy.weightSum ≤ 65535 ∧
        ∃ box, r.box? 1 6 = some box ∧ box.deleted = false ∧ box.votes.keys = [2, 1] ∧ box.finalized = true ∧
          box.weight.toNat = box.votes.sumBy (fun a _ => r.policy.weight a) := by
  have hrun : ((system plainDeps .slots plainConfig).run (start .slots plainConfig) bothVote).isSome := rfl
  have hreach := Lts.Reach.of_run (.init rfl) wired_bothVote (Option.some_get hrun).symm
  refine ⟨_, hreach, _, List.mem_cons_self, by decide, _, rfl, rfl, rfl, rfl, ?_⟩
  exact (box_counters _ hreach _ List.mem_cons_self (by decide) 1 6 _ rfl rfl).2.1

end TeeProxy.Voting
