/-
A voting round (`round.go`) and the part of `Storage.AddVote` that runs under
the locks of one instruction ID (`voting.go`, `startVoteBox` and
`buildVoteBox` of `box.go`).

The locks of an ID are held from the lookup of its boxes to the return, and
the limiter has its own lock, so a critical section is one function of the
round. It is cut as the source is: find or open the box (`openBox`), record
the vote (`recordVote`), and what a finalizing vote adds (`finalize`).
`Cast` lists its outcomes once; everything later reasons from that list.
-/
import TeeProxy.Voting.Box

namespace TeeProxy.Voting

open GoTime (Time Duration)

/-- `voteBoxes`: the boxes of an ID. -/
structure VoteBoxes where
  m : GoMap Hash VoteBox
  finalizedHash : Hash

def newVoteBoxes : VoteBoxes := ⟨∅, 0⟩

structure Round where
  policy : SigningPolicy
  voting : GoMap Hash VoteBoxes
  limiter : Limiter
  /-- nil unless active-voter metrics are collected -/
  providerVoters : Option (GoMap Address Unit)
  proposers : Option (GoMap Address Unit)
  maxVotingWeight : UInt16

/-- `config.Voting`. -/
structure Config where
  proposalExpiration : Duration
  maxPendingRequests : Nat
  maxProviderVote : ℚ
  historySize : Nat
  collectVoters : Bool

def createRound (policy : SigningPolicy) (maxPendingRequests : Nat) (collectVoters : Bool) : Round where
  policy
  voting := ∅
  limiter := .new policy.voters.voters maxPendingRequests
  providerVoters := if collectVoters then some ∅ else none
  proposers := if collectVoters then some ∅ else none
  maxVotingWeight := 0

namespace Round

/-- `round.Voting.M[id]`, a new `voteBoxes` when there is none. -/
def boxes (r : Round) (id : Hash) : VoteBoxes := (r.voting.get? id).getD newVoteBoxes

/-- `boxes.M[hash]`. -/
def box? (r : Round) (id hash : Hash) : Option VoteBox := (r.boxes id).m.get? hash

/-- The hash an ID was finalized with, or zero. -/
def finalizedHash (r : Round) (id : Hash) : Hash := (r.boxes id).finalizedHash

def setBox (r : Round) (id hash : Hash) (box : VoteBox) : Round :=
  { r with voting := r.voting.set id { r.boxes id with m := (r.boxes id).m.set hash box } }

/-- The hash of a finalized box is written. -/
def setFinalizedHash (r : Round) (id hash : Hash) : Round :=
  { r with voting := r.voting.set id { r.boxes id with finalizedHash := hash } }

def markProviderVoter (r : Round) (signer : Address) : Round :=
  { r with providerVoters := r.providerVoters.map (·.set signer ()) }

def recordVotingWeight (r : Round) (w : UInt16) : Round :=
  if r.providerVoters.isNone then r else { r with maxVotingWeight := max r.maxVotingWeight w }

def markProposer (r : Round) (signer : Address) : Round :=
  { r with proposers := r.proposers.map (·.set signer ()) }

end Round

/-- The arguments of an `AddVote` call, and the metadata it reads. -/
structure Call where
  data : Data
  signer : Address
  signature : Bytes
  metadata : Meta

/-- What `time.Now` returns in `startVoteBox`, `buildVoteBox` and `addVote`. -/
structure Clock where
  start : Time
  build : Time
  vote : Time

def eventFutureSlack : Duration := 15 * GoTime.second

/-- What the critical section leaves for the rest of `AddVote`. -/
structure Voted where
  receipt : Receipt
  isProvider : Bool
  votedWeight : UInt16
  startedBox : Bool
  reached : Bool
  buildErr : Bool
  actionToSend : Option Action
  deriving DecidableEq, Repr

section CriticalSection

variable (dep : Deps) (cfg : Config)

/-- The threshold of a box, from basis points or the policy. -/
def boxThreshold (policy : SigningPolicy) (t : Int) : Except VoteErr UInt16 :=
  if t = -1 then
    if policy.threshold = 0 then .error .zeroPolicyThreshold else .ok policy.threshold
  else if t < -1 ∨ t > Meta.maxBIPS then .error (.invalidThreshold t)
  else .ok (computeThreshold policy.voters.totalWeight t)

def buildVoteBox (policy : SigningPolicy) (call : Call) (now : Time) : Except VoteErr VoteBox := do
  let t ← (call.metadata.thresholdBIPS call.data.toDataFixed).mapError .readingThreshold
  let threshold ← boxThreshold policy t
  let (cosigners, cosignerThreshold) ←
    (call.metadata.cosigners call.data.toDataFixed).mapError .readingCosigners
  if cosignerThreshold.toNat > cosigners.size then
    throw (.invalidCosignerThreshold cosignerThreshold cosigners.size)
  (newVoteBox dep call.data.toDataFixed call.signer threshold cosigners cosignerThreshold now
    (now.add cfg.proposalExpiration)).mapError .creatingVoteBox

/-- `startVoteBox`. The limiter admits the proposer first and is released
when the box cannot be built. -/
def startVoteBox (policy : SigningPolicy) (limiter : Limiter) (call : Call) (clock : Clock) :
    Limiter × Except VoteErr VoteBox :=
  if clock.start.before ((GoTime.unix call.data.timestamp).add (-eventFutureSlack)) then
    (limiter, .error .votingBeforeEvent)
  else match limiter.increment call.signer with
    | .error e => (limiter, .error (.limiter e))
    | .ok l => match buildVoteBox dep cfg policy call clock.build with
      | .error e => (l.decrement call.signer, .error e)
      | .ok box => (l, .ok box)

namespace Round

/-- The box of the vote, and whether it was stored before. -/
def openBox (r : Round) (hash : Hash) (call : Call) (clock : Clock) : Round × Except VoteErr (VoteBox × Bool) :=
  match r.box? call.data.instructionID hash with
  | some box => (r, .ok (box, true))
  | none => match startVoteBox dep cfg r.policy r.limiter call clock with
    | (limiter, .error e) => ({ r with limiter }, .error e)
    | (limiter, .ok box) => ({ r with limiter }, .ok (box, false))

/-- The vote goes into the box; a new box is stored only when it took its
first vote. -/
def recordVote (r : Round) (hash : Hash) (call : Call) (clock : Clock) (box : VoteBox) (existsB : Bool) :
    Round × Except VoteErr (VoteBox × Voted) :=
  let id := call.data.instructionID
  if box.deleted then (r, .error .votingEnded)
  else
    let (vg, weight) := voterGroupCheck call.signer r.policy.voters.voterDataMap box.proposal.cosigners
    match box.addVote dep call.signer weight call.signature call.data.additionalVariableMessage vg clock.vote with
    -- a stored box is a pointer, so it keeps what a failed `addVote` wrote
    | (box', .error e) => (if existsB then r.setBox id hash box' else r, .error (.addingVote call.signer id e))
    | (box', .ok (receipt, reached)) =>
      (r.setBox id hash box', .ok (box', ⟨receipt, vg.isProvider, box'.weight, !existsB, reached, false, none⟩))

/-- What the vote that finalizes a box adds. -/
def finalize (r : Round) (hash : Hash) (call : Call) (box : VoteBox) (voted : Voted) : Round × Voted :=
  let id := call.data.instructionID
  let r := { r with limiter := r.limiter.decrement box.proposer }
  if isRestore dep call.data.opType call.data.opCommand then (r, voted)
  else
    let r := if r.finalizedHash id = 0 then r.setFinalizedHash id hash else r
    match box.action dep .threshold with
    | .error _ => (r, { voted with buildErr := true })
    | .ok a => (r, { voted with actionToSend := some a })

/-- The critical section once the box is there. -/
def voteOn (r : Round) (hash : Hash) (call : Call) (clock : Clock) (box : VoteBox) (existsB : Bool) :
    Round × Except VoteErr Voted :=
  match r.recordVote dep hash call clock box existsB with
  | (r, .error e) => (r, .error e)
  | (r, .ok (box, voted)) =>
    if voted.reached then
      let (r, voted) := r.finalize dep hash call box voted
      (r, .ok voted)
    else (r, .ok voted)

/-- The critical section of `AddVote`. -/
def castVote (r : Round) (hash : Hash) (call : Call) (clock : Clock) : Round × Except VoteErr Voted :=
  match r.openBox dep cfg hash call clock with
  | (r, .error e) => (r, .error e)
  | (r, .ok (box, existsB)) => r.voteOn dep hash call clock box existsB

/-- The metrics `AddVote` records after the critical section. -/
def recordMetrics (r : Round) (signer : Address) (voted : Voted) : Round :=
  if cfg.collectVoters then
    let r := if voted.isProvider then (r.markProviderVoter signer).recordVotingWeight voted.votedWeight else r
    if voted.startedBox then r.markProposer signer else r
  else r

/-- The critical section of `scheduleEnd`: the box gives its actions and is
deleted. -/
def endBox (r : Round) (id hash : Hash) (box : VoteBox) : Round × List Action :=
  (r.setBox id hash box.delete, box.endActions dep (r.finalizedHash id))

end Round

end CriticalSection

/-! ## Lookups after an update -/

namespace Round

variable {r : Round} {id id' hash hash' : Hash} {box : VoteBox}

theorem boxes_set (r : Round) (id id' : Hash) (bs : VoteBoxes) :
    ({ r with voting := r.voting.set id bs } : Round).boxes id' = if id' = id then bs else r.boxes id' := by
  simp only [boxes, GoMap.get?_set]
  split <;> rfl

theorem box?_setBox (r : Round) (id hash : Hash) (box : VoteBox) (id' hash' : Hash) :
    (r.setBox id hash box).box? id' hash' = if id' = id ∧ hash' = hash then some box else r.box? id' hash' := by
  simp only [box?, setBox, boxes_set]
  by_cases hid : id' = id
  · subst hid; simp [GoMap.get?_set]
  · simp [hid]

@[simp] theorem box?_setBox_self : (r.setBox id hash box).box? id hash = some box := by
  simp [box?_setBox]

theorem box?_setBox_ne (h : ¬ (id' = id ∧ hash' = hash)) :
    (r.setBox id hash box).box? id' hash' = r.box? id' hash' := by
  rw [box?_setBox, if_neg h]

/-- What holds of every stored box holds after one is replaced. -/
theorem forall_setBox {P : VoteBox → Prop} (h : ∀ id hash box, r.box? id hash = some box → P box) (hbox : P box)
    (id' hash' : Hash) (box' : VoteBox) (hb : (r.setBox id hash box).box? id' hash' = some box') : P box' := by
  rw [box?_setBox] at hb
  split at hb
  · cases hb; exact hbox
  · exact h _ _ _ hb

@[simp] theorem finalizedHash_setBox : (r.setBox id hash box).finalizedHash id' = r.finalizedHash id' := by
  simp only [finalizedHash, setBox, boxes_set]
  split
  next h => rw [h]
  next => rfl

@[simp] theorem box?_setFinalizedHash : (r.setFinalizedHash id hash).box? id' hash' = r.box? id' hash' := by
  simp only [box?, setFinalizedHash, boxes_set]
  split
  next h => rw [h]
  next => rfl

theorem finalizedHash_setFinalizedHash (r : Round) (id hash id' : Hash) :
    (r.setFinalizedHash id hash).finalizedHash id' = if id' = id then hash else r.finalizedHash id' := by
  simp only [finalizedHash, setFinalizedHash, boxes_set]
  split <;> rfl

@[simp] theorem box?_limiter (l : Limiter) : ({ r with limiter := l } : Round).box? id hash = r.box? id hash := rfl
@[simp] theorem finalizedHash_limiter (l : Limiter) :
    ({ r with limiter := l } : Round).finalizedHash id = r.finalizedHash id := rfl
@[simp] theorem limiter_setBox : (r.setBox id hash box).limiter = r.limiter := rfl

section Finalize

variable (dep : Deps) (call : Call) (voted : Voted)

/-- `finalize` writes the limiter and at most one finalized hash. -/
theorem finalize_eq (r : Round) (hash : Hash) (box : VoteBox) :
    (r.finalize dep hash call box voted).1 =
      { (if ¬ isRestore dep call.data.opType call.data.opCommand ∧ r.finalizedHash call.data.instructionID = 0
          then r.setFinalizedHash call.data.instructionID hash else r) with
        limiter := r.limiter.decrement box.proposer } := by
  unfold finalize
  by_cases hr : isRestore dep call.data.opType call.data.opCommand = true
  · simp [hr]
  · by_cases h0 : r.finalizedHash call.data.instructionID = 0
    · simp only [hr, Bool.false_eq_true, if_false, finalizedHash_limiter, h0, if_true, not_false_iff, and_self]
      split <;> rfl
    · simp only [hr, Bool.false_eq_true, if_false, finalizedHash_limiter, h0, and_false]
      split <;> rfl

@[simp] theorem policy_finalize : (r.finalize dep hash call box voted).1.policy = r.policy := by
  rw [finalize_eq]; split <;> rfl

@[simp] theorem limiter_finalize :
    (r.finalize dep hash call box voted).1.limiter = r.limiter.decrement box.proposer := by
  rw [finalize_eq]

theorem finalizedHash_finalize :
    (r.finalize dep hash call box voted).1.finalizedHash id' =
      if isRestore dep call.data.opType call.data.opCommand = false ∧ id' = call.data.instructionID ∧
          r.finalizedHash id' = 0 then hash else r.finalizedHash id' := by
  rw [finalize_eq, finalizedHash_limiter]
  cases hr : isRestore dep call.data.opType call.data.opCommand with
  | true => simp
  | false =>
    by_cases h0 : r.finalizedHash call.data.instructionID = 0
    · simp only [Bool.false_eq_true, not_false_iff, h0, and_self, if_true, true_and, finalizedHash_setFinalizedHash]
      by_cases hid : id' = call.data.instructionID
      · rw [if_pos hid, if_pos ⟨hid, hid ▸ h0⟩]
      · rw [if_neg hid, if_neg fun h => hid h.1]
    · rw [if_neg fun h => h0 h.2, if_neg]
      rintro ⟨-, rfl, h⟩
      exact h0 h

theorem reached_finalize : (r.finalize dep hash call box voted).2.reached = voted.reached := by
  simp only [finalize]
  repeat' split
  all_goals rfl

theorem actionToSend_finalize (hv : voted.actionToSend = none) :
    (r.finalize dep hash call box voted).2.actionToSend =
      if isRestore dep call.data.opType call.data.opCommand then none else (box.action dep .threshold).toOption := by
  unfold finalize
  dsimp only
  split
  · exact hv
  · split
    next h => rw [h]; exact hv
    next h => rw [h]; rfl

@[simp] theorem box?_finalize :
    (r.finalize dep hash call box voted).1.box? id' hash' = r.box? id' hash' := by
  rw [finalize_eq, box?_limiter]; split <;> simp

end Finalize

/-- `r` with other metrics. -/
inductive SameVoting (r : Round) : Round → Prop
  | intro {pv ps w} : SameVoting r { r with providerVoters := pv, proposers := ps, maxVotingWeight := w }

theorem sameVoting_recordMetrics (cfg : Config) (r : Round) (signer : Address) (voted : Voted) :
    SameVoting r (r.recordMetrics cfg signer voted) := by
  unfold recordMetrics recordVotingWeight markProviderVoter markProposer
  repeat' split
  all_goals exact .intro

end Round

/-! ## A box as it is opened -/

/-- A box `startVoteBox` returns: nobody has voted, and its terms are those
of the call's instruction. -/
structure Fresh (dep : Deps) (policy : SigningPolicy) (call : Call) (box : VoteBox) : Prop where
  proposer : box.proposer = call.signer
  iID : box.iID = call.data.instructionID
  iHash : dep.instruction.hashFixed call.data.toDataFixed = .ok box.iHash
  instruction : box.proposal.instruction = some call.data.toDataFixed
  threshold : ∃ t, call.metadata.thresholdBIPS call.data.toDataFixed = .ok t ∧
    boxThreshold policy t = .ok box.proposal.threshold
  cosigners : ∃ t, call.metadata.cosigners call.data.toDataFixed = .ok (box.proposal.cosigners, t) ∧
    t.toNat ≤ box.proposal.cosigners.size ∧ box.proposal.cosignerThreshold = t.toUInt16
  votes : box.votes = ∅
  weight : box.weight = 0
  cosignerWeight : box.cosignerWeight = 0
  finalized : box.finalized = false
  deleted : box.deleted = false

section Opening

variable {dep : Deps} {cfg : Config} {policy : SigningPolicy} {limiter limiter' : Limiter} {call : Call}
  {clock : Clock} {box : VoteBox}

theorem buildVoteBox_ok_iff {now : Time} : buildVoteBox dep cfg policy call now = .ok box ↔
    ∃ t threshold cosigners ct, call.metadata.thresholdBIPS call.data.toDataFixed = .ok t ∧
      boxThreshold policy t = .ok threshold ∧ call.metadata.cosigners call.data.toDataFixed = .ok (cosigners, ct) ∧
      ct.toNat ≤ cosigners.size ∧ newVoteBox dep call.data.toDataFixed call.signer threshold cosigners ct now
        (now.add cfg.proposalExpiration) = .ok box := by
  simp only [buildVoteBox, Except.bind_ok_iff, Except.mapError_ok_iff, Except.ite_throw_ok_iff, Prod.exists, not_lt]
  constructor
  · rintro ⟨t, ht, threshold, hth, cosigners, ct, hc, hle, hb⟩
    exact ⟨t, threshold, cosigners, ct, ht, hth, hc, hle, hb⟩
  · rintro ⟨t, threshold, cosigners, ct, ht, hth, hc, hle, hb⟩
    exact ⟨t, ht, threshold, hth, cosigners, ct, hc, hle, hb⟩

theorem buildVoteBox_ok {now : Time} (h : buildVoteBox dep cfg policy call now = .ok box) :
    Fresh dep policy call box := by
  obtain ⟨t, threshold, cosigners, ct, ht, hth, hc, hle, hb⟩ := buildVoteBox_ok_iff.mp h
  obtain ⟨voteHash, iHash, -, hi, rfl⟩ := newVoteBox_ok_iff.mp hb
  exact ⟨rfl, rfl, hi, rfl, ⟨t, ht, hth⟩, ⟨ct, hc, hle, rfl⟩, rfl, rfl, rfl, rfl, rfl⟩

theorem startVoteBox_built (h : startVoteBox dep cfg policy limiter call clock = (limiter', .ok box)) :
    limiter.Admitted call.signer limiter' ∧ buildVoteBox dep cfg policy call clock.build = .ok box := by
  unfold startVoteBox at h
  split at h
  · cases h
  split at h
  · cases h
  next l hl =>
  split at h
  · cases h
  next b hb =>
  simp only [Prod.mk.injEq, Except.ok.injEq] at h
  obtain ⟨rfl, rfl⟩ := h
  exact ⟨Limiter.increment_ok hl, hb⟩

theorem startVoteBox_ok (h : startVoteBox dep cfg policy limiter call clock = (limiter', .ok box)) :
    limiter.Admitted call.signer limiter' ∧ Fresh dep policy call box :=
  (startVoteBox_built h).imp_right buildVoteBox_ok

/-- Two limiters that answer alike. -/
structure Limiter.Same (l l' : Limiter) : Prop where
  pending : ∀ a, l'.pending a = l.pending a
  registered : ∀ a, l'.registered a ↔ l.registered a
  cap : l'.maxPendingRequests = l.maxPendingRequests

theorem Limiter.Same.refl (l : Limiter) : Limiter.Same l l := ⟨fun _ => rfl, fun _ => Iff.rfl, rfl⟩

theorem startVoteBox_error {e : VoteErr}
    (h : startVoteBox dep cfg policy limiter call clock = (limiter', .error e)) :
    Limiter.Same limiter limiter' := by
  unfold startVoteBox at h
  split at h
  · rw [← (Prod.mk.inj h).1]; exact .refl _
  split at h
  · rw [← (Prod.mk.inj h).1]; exact .refl _
  next l hl =>
  have ha := Limiter.increment_ok hl
  split at h
  · rw [← (Prod.mk.inj h).1]
    refine ⟨ha.pending_release, fun a => ?_, by simp [ha.cap]⟩
    rw [Limiter.registered_decrement]; exact ha.keys a
  · cases h

end Opening

/-! ## The outcomes of a critical section -/

/-- The box a vote goes to: stored and not deleted, or just opened, and then
the limiter has its slot. -/
inductive Target (dep : Deps) (cfg : Config) (r : Round) (hash : Hash) (call : Call) (clock : Clock) :
    Round → VoteBox → Bool → Prop
  | stored {box} : r.box? call.data.instructionID hash = some box → box.deleted = false →
      Target dep cfg r hash call clock r box true
  | opened {limiter box} : r.box? call.data.instructionID hash = none →
      startVoteBox dep cfg r.policy r.limiter call clock = (limiter, .ok box) →
      Target dep cfg r hash call clock { r with limiter } box false

section Targets

variable {dep : Deps} {cfg : Config} {r r₁ : Round} {hash : Hash} {call : Call} {clock : Clock} {box : VoteBox}
  {existsB : Bool}

theorem Target.policy (ht : Target dep cfg r hash call clock r₁ box existsB) : r₁.policy = r.policy := by
  cases ht <;> rfl

theorem Target.box? (ht : Target dep cfg r hash call clock r₁ box existsB) (id' hash' : Hash) :
    r₁.box? id' hash' = r.box? id' hash' := by
  cases ht <;> rfl

theorem Target.openBox (ht : Target dep cfg r hash call clock r₁ box existsB) :
    r.openBox dep cfg hash call clock = (r₁, .ok (box, existsB)) := by
  unfold Round.openBox
  cases ht with
  | stored hb _ => rw [hb]
  | opened hb ho => rw [hb]; simp only [ho]

/-- A property of every stored box, after the box of the vote is stored. -/
theorem Target.forall_setBox (ht : Target dep cfg r hash call clock r₁ box existsB) {P : VoteBox → Prop}
    (h : ∀ id hash box, r.box? id hash = some box → P box) {box' : VoteBox} (hbox : P box') :
    ∀ id' hash' box'', (r₁.setBox call.data.instructionID hash box').box? id' hash' = some box'' → P box'' :=
  Round.forall_setBox (fun _ _ _ hb => h _ _ _ (ht.box? _ _ ▸ hb)) hbox

end Targets

/-- `addVote` as the critical section calls it. -/
def castOn (dep : Deps) (policy : SigningPolicy) (call : Call) (clock : Clock) (box : VoteBox) :
    VoteBox × Except VoteErr (Receipt × Bool) :=
  let check := voterGroupCheck call.signer policy.voters.voterDataMap box.proposal.cosigners
  box.addVote dep call.signer check.2 call.signature call.data.additionalVariableMessage check.1 clock.vote

/-- What a recorded vote leaves of a box: the vote is added under its signer,
the latch may close, and nothing else that is read later changes. -/
structure Recorded (call : Call) (clock : Clock) (box : VoteBox) (reached : Bool) (box' : VoteBox) : Prop where
  new : box.votes.get? call.signer = none
  votes : box'.votes = box.votes.set call.signer
    (box.nextVote clock.vote call.signature call.data.additionalVariableMessage)
  finalized : box'.finalized = (box.finalized || reached)
  unfinalized : reached = true → box.finalized = false
  proposer : box'.proposer = box.proposer
  proposal : box'.proposal = box.proposal
  iHash : box'.iHash = box.iHash
  deleted : box'.deleted = box.deleted

theorem castOn_ok {dep : Deps} {policy : SigningPolicy} {call : Call} {clock : Clock} {box box' : VoteBox}
    {receipt : Receipt} {reached : Bool} (h : castOn dep policy call clock box = (box', .ok (receipt, reached))) :
    Recorded call clock box reached box' := by
  obtain ⟨-, -, hnew, voteHash, r, hr, hreached, rfl⟩ := VoteBox.addVote_ok h
  have hp : r.proposer = box.proposer ∧ r.proposal = box.proposal ∧ r.iHash = box.iHash ∧
      r.deleted = box.deleted := by subst hr; exact ⟨rfl, rfl, rfl, rfl⟩
  refine ⟨hnew, by subst hr; rfl, ?_, ?_, hp.1, hp.2.1, hp.2.2.1, hp.2.2.2⟩
  · subst hreached; cases box.finalized <;> rfl
  · subst hreached; cases box.finalized <;> simp

/-- Everything a critical section can do. -/
inductive Cast (dep : Deps) (cfg : Config) (r : Round) (hash : Hash) (call : Call) (clock : Clock) :
    Round → Except VoteErr Voted → Prop
  /-- no box could be opened -/
  | refused {limiter e} : r.box? call.data.instructionID hash = none →
      startVoteBox dep cfg r.policy r.limiter call clock = (limiter, .error e) →
      Cast dep cfg r hash call clock { r with limiter } (.error e)
  /-- the stored box is deleted -/
  | ended {box} : r.box? call.data.instructionID hash = some box → box.deleted = true →
      Cast dep cfg r hash call clock r (.error .votingEnded)
  /-- a stored box did not take the vote -/
  | rejected {box box' e} : r.box? call.data.instructionID hash = some box → box.deleted = false →
      castOn dep r.policy call clock box = (box', .error e) →
      Cast dep cfg r hash call clock (r.setBox call.data.instructionID hash box')
        (.error (.addingVote call.signer call.data.instructionID e))
  /-- a new box did not take its first vote: it is dropped, its slot is kept -/
  | leaked {limiter box box' e} : r.box? call.data.instructionID hash = none →
      startVoteBox dep cfg r.policy r.limiter call clock = (limiter, .ok box) →
      castOn dep r.policy call clock box = (box', .error e) →
      Cast dep cfg r hash call clock { r with limiter } (.error (.addingVote call.signer call.data.instructionID e))
  /-- the vote is recorded and does not finalize the box -/
  | recorded {r₁ box existsB box' receipt voted} : Target dep cfg r hash call clock r₁ box existsB →
      castOn dep r.policy call clock box = (box', .ok (receipt, false)) →
      voted.reached = false → voted.actionToSend = none →
      Cast dep cfg r hash call clock (r₁.setBox call.data.instructionID hash box') (.ok voted)
  /-- the vote finalizes the box -/
  | finalized {r₁ box existsB box' receipt voted} : Target dep cfg r hash call clock r₁ box existsB →
      castOn dep r.policy call clock box = (box', .ok (receipt, true)) →
      voted.reached = true → voted.actionToSend = none →
      Cast dep cfg r hash call clock
        ((r₁.setBox call.data.instructionID hash box').finalize dep hash call box' voted).1
        (.ok ((r₁.setBox call.data.instructionID hash box').finalize dep hash call box' voted).2)

section Outcomes

variable {dep : Deps} {cfg : Config} {r r' : Round} {hash : Hash} {call : Call} {clock : Clock}

/-- What `recordVote` does with a box that is not deleted. -/
theorem Round.recordVote_open {box : VoteBox} (existsB : Bool) (hd : box.deleted = false) :
    r.recordVote dep hash call clock box existsB =
      match castOn dep r.policy call clock box with
      | (box', .error e) => (if existsB then r.setBox call.data.instructionID hash box' else r,
          .error (.addingVote call.signer call.data.instructionID e))
      | (box', .ok (receipt, reached)) => (r.setBox call.data.instructionID hash box',
          .ok (box', ⟨receipt, (voterGroupCheck call.signer r.policy.voters.voterDataMap
            box.proposal.cosigners).1.isProvider, box'.weight, !existsB, reached, false, none⟩)) := by
  unfold Round.recordVote castOn
  rw [if_neg (by simp [hd])]

theorem Round.voteOn_cast {r₁ : Round} {box : VoteBox} {existsB : Bool} {res : Except VoteErr Voted}
    (ht : Target dep cfg r hash call clock r₁ box existsB) (hd : box.deleted = false)
    (h : r₁.voteOn dep hash call clock box existsB = (r', res)) : Cast dep cfg r hash call clock r' res := by
  have hp : r₁.policy = r.policy := by cases ht <;> rfl
  unfold Round.voteOn at h
  rw [Round.recordVote_open existsB hd, hp] at h
  rcases hc : castOn dep r.policy call clock box with ⟨box', res'⟩
  rw [hc] at h
  match res' with
  | .error e =>
    simp only [Prod.mk.injEq] at h
    obtain ⟨rfl, rfl⟩ := h
    cases ht with
    | stored hs _ => exact .rejected hs hd hc
    | opened hs ho => exact .leaked hs ho hc
  | .ok (receipt, false) =>
    simp only [Bool.false_eq_true, if_false, Prod.mk.injEq] at h
    obtain ⟨rfl, rfl⟩ := h
    exact .recorded ht hc rfl rfl
  | .ok (receipt, true) =>
    simp only [if_true, Prod.mk.injEq] at h
    obtain ⟨rfl, rfl⟩ := h
    exact .finalized ht hc rfl rfl

/-- **The list is complete.** -/
theorem Round.castVote_cast {res : Except VoteErr Voted}
    (h : r.castVote dep cfg hash call clock = (r', res)) : Cast dep cfg r hash call clock r' res := by
  unfold Round.castVote Round.openBox at h
  cases hb : r.box? call.data.instructionID hash with
  | some box =>
    simp only [hb] at h
    cases hd : box.deleted with
    | false => exact Round.voteOn_cast (.stored hb hd) hd h
    | true =>
      simp only [Round.voteOn, Round.recordVote, hd, if_true, Prod.mk.injEq] at h
      obtain ⟨rfl, rfl⟩ := h
      exact .ended hb hd
  | none =>
    rcases hs : startVoteBox dep cfg r.policy r.limiter call clock with ⟨limiter, opened⟩
    simp only [hb, hs] at h
    cases opened with
    | error e =>
      simp only [Prod.mk.injEq] at h
      obtain ⟨rfl, rfl⟩ := h
      exact .refused hb hs
    | ok box => exact Round.voteOn_cast (.opened hb hs) (startVoteBox_ok hs).2.deleted h

theorem Round.castVote_policy {res : Except VoteErr Voted} (h : r.castVote dep cfg hash call clock = (r', res)) :
    r'.policy = r.policy := by
  cases Round.castVote_cast h with
  | refused | ended | rejected | leaked => rfl
  | recorded ht => exact ht.policy
  | finalized ht =>
    rw [Round.policy_finalize]
    exact ht.policy

/-- **A vote that is taken**, in lookups: one box is stored in its new state,
and a vote that finalizes a box which is not a restore one sets the finalized
hash of the ID, if it was not set, and gives a threshold action to send. -/
structure VotedOn (dep : Deps) (cfg : Config) (r : Round) (hash : Hash) (call : Call) (clock : Clock) (r' : Round)
    (voted : Voted) (box box' : VoteBox) : Prop where
  target : ∃ r₁ existsB, Target dep cfg r hash call clock r₁ box existsB
  recorded : Recorded call clock box voted.reached box'
  box? : ∀ id' hash', r'.box? id' hash' =
    if id' = call.data.instructionID ∧ hash' = hash then some box' else r.box? id' hash'
  finalizedHash : ∀ id', r'.finalizedHash id' =
    if voted.reached = true ∧ isRestore dep call.data.opType call.data.opCommand = false ∧
      id' = call.data.instructionID ∧ r.finalizedHash id' = 0 then hash else r.finalizedHash id'
  action : voted.actionToSend =
    if voted.reached = true ∧ isRestore dep call.data.opType call.data.opCommand = false then
      (box'.action dep .threshold).toOption else none

theorem Target.finalizedHash {r₁ : Round} {box : VoteBox} {existsB : Bool}
    (ht : Target dep cfg r hash call clock r₁ box existsB) (id' : Hash) :
    r₁.finalizedHash id' = r.finalizedHash id' := by
  cases ht <;> rfl

theorem Round.castVote_ok {voted : Voted} (h : r.castVote dep cfg hash call clock = (r', .ok voted)) :
    ∃ box box', VotedOn dep cfg r hash call clock r' voted box box' := by
  cases Round.castVote_cast h with
  | @recorded r₁ box existsB box' _ _ ht hc hreached haction =>
    refine ⟨box, box', ⟨r₁, existsB, ht⟩, hreached ▸ castOn_ok hc, fun id' hash' => ?_, fun id' => ?_, ?_⟩
    · rw [Round.box?_setBox, ht.box?]
    · rw [if_neg (by simp [hreached]), Round.finalizedHash_setBox, ht.finalizedHash]
    · rw [haction, if_neg (by simp [hreached])]
  | @finalized r₁ box existsB box' _ voted ht hc hreached haction =>
    have hr : ((r₁.setBox call.data.instructionID hash box').finalize dep hash call box' voted).2.reached = true :=
      (Round.reached_finalize dep call voted).trans hreached
    refine ⟨box, box', ⟨r₁, existsB, ht⟩, hr ▸ castOn_ok hc, fun id' hash' => ?_, fun id' => ?_, ?_⟩
    · rw [Round.box?_finalize, Round.box?_setBox, ht.box?]
    · rw [Round.finalizedHash_finalize, Round.finalizedHash_setBox, ht.finalizedHash, hr]
      simp
    · rw [Round.actionToSend_finalize _ _ _ haction, hr]
      cases isRestore dep call.data.opType call.data.opCommand <;> simp

/-- **A vote that is refused**, in lookups: at most a vote hash moves. -/
theorem Round.castVote_error {e : VoteErr} (h : r.castVote dep cfg hash call clock = (r', .error e)) :
    (∀ id', r'.finalizedHash id' = r.finalizedHash id') ∧ ∀ id' hash', r'.box? id' hash' = r.box? id' hash' ∨
      ∃ box voteHash, r.box? id' hash' = some box ∧ r'.box? id' hash' = some { box with voteHash } := by
  cases Round.castVote_cast h with
  | refused | ended | leaked => exact ⟨fun _ => rfl, fun _ _ => .inl rfl⟩
  | @rejected box box' _ hb hd hc =>
    refine ⟨fun _ => Round.finalizedHash_setBox, fun id' hash' => ?_⟩
    rw [Round.box?_setBox]
    split
    next heq =>
      rw [heq.1, heq.2, hb]
      obtain ⟨voteHash, rfl⟩ := VoteBox.addVote_error hc
      exact .inr ⟨box, voteHash, rfl, rfl⟩
    next => exact .inl rfl

end Outcomes

end TeeProxy.Voting
