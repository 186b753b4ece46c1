/-
One voting process (`voteBox` of `internal/service/instruction/voting/box.go`
and the size constraints of `constraints.go`): what a vote does to a box, the
actions a finalized box gives, and its end.

A box is changed under its lock only, so each operation is a function of the
box. `addVote` returns the box it leaves also when it refuses the vote: the
source assigns `VoteHash` before it looks at the error of `NextVoteHash`.
-/
import TeeProxy.Meta
import TeeProxy.Voting.Limiter
import Mathlib.Data.Rat.Floor

namespace TeeProxy.Voting

open GoTime (Time Duration)

/-- The packages voting imports from outside the repository. -/
structure Deps where
  op : OpPkg
  instruction : InstructionPkg

/-! ## Size constraints -/

/-- The errors of the size check. -/
inductive SizeErr
  | nonInstructionCommand
  | tooManyCosigners
  | originalMessageTooBig
  | additionalMessageTooBig
  | additionalVariableTooBig
  deriving DecidableEq, Repr

def kib : Nat := 1 <<< 10
def mib : Nat := 1 <<< 20
def maxTotalVariableMessage : Nat := mib
def maxCosigners : Nat := 1024

/-- The largest lengths of the messages. -/
structure SizeConstraint where
  originalMessage : Nat
  additionalFixedMessage : Nat
  additionalVariableMessage : Nat
  deriving DecidableEq, Repr

def defaultConstraint : SizeConstraint := ⟨50 * kib, 100 * kib, 50 * kib⟩

/-- `noAdditional`: a message and nothing beside it. -/
def noAdditional : SizeConstraint := ⟨50 * kib, 0, 0⟩

/-- `maxProviderVote` is a float64 in `[0, 1]`, so its product with `2^20` is
exact and the conversion to int is the floor. -/
def restoreConstraint (maxProviderVote : ℚ) : SizeConstraint :=
  let variableLimit :=
    if maxProviderVote > 0 then
      let limit := ⌊maxTotalVariableMessage * maxProviderVote⌋.toNat
      if limit = 0 then 1 else limit
    else maxTotalVariableMessage
  ⟨50 * kib, 100 * kib, variableLimit⟩

/-- The constraints of a command. -/
def constraints (op : OpPkg) (opCommand : Hash) (maxProviderVote : ℚ) : Except SizeErr SizeConstraint :=
  match op.hashToOPCommand opCommand with
  | some .initializePolicy | some .updatePolicy | some .keyInfo | some .teeInfo | some .teeBackup =>
    .error .nonInstructionCommand
  | some .keyDataProviderRestore | some .keyDataProviderRestoreTest => .ok (restoreConstraint maxProviderVote)
  | some .pay | some .reissue | some .teeAttestation | some .keyGenerate | some .keyDelete => .ok noAdditional
  | _ => .ok defaultConstraint

def checkSize (op : OpPkg) (data : Data) (maxProviderVote : ℚ) : Except SizeErr Unit :=
  match constraints op data.opCommand maxProviderVote with
  | .error e => .error e
  | .ok c =>
    if data.cosigners.length > maxCosigners then .error .tooManyCosigners
    else if data.originalMessage.length > c.originalMessage then .error .originalMessageTooBig
    else if data.additionalFixedMessage.length > c.additionalFixedMessage then .error .additionalMessageTooBig
    else if data.additionalVariableMessage.length > c.additionalVariableMessage then
      .error .additionalVariableTooBig
    else .ok ()

theorem checkSize_cosigners {op : OpPkg} {data : Data} {q : ℚ} (h : checkSize op data q = .ok ()) :
    data.cosigners.length ≤ maxCosigners := by
  unfold checkSize at h
  split at h
  · cases h
  split at h
  · cases h
  · next hle => exact not_lt.mp hle

/-! ## Boxes -/

/-- Everything `AddVote` can refuse a vote with (a cancelled send comes after
the vote is recorded and is a step of the storage). -/
inductive VoteErr
  | size (e : SizeErr)
  | hashFixed (e : PkgErr)
  | noRound (rewardEpochID : UInt32)
  | inconsistentData (e : MetaErr)
  | votingBeforeEvent
  | limiter (e : LimiterErr)
  | readingThreshold (e : MetaErr)
  | zeroPolicyThreshold
  | invalidThreshold (t : Int)
  | readingCosigners (e : MetaErr)
  | invalidCosignerThreshold (cosignerThreshold : UInt64) (cosigners : Nat)
  | creatingVoteBox (e : PkgErr)
  | invalidVoter
  | votingEnded
  | signatureAlreadyStored
  | nextVoteHash (e : PkgErr)
  | addingVote (signer : Address) (id : Hash) (e : VoteErr)
  deriving DecidableEq, Repr

/-- What a box votes on, and what it needs. -/
structure Proposal where
  /-- nil once the box is deleted -/
  instruction : Option DataFixed
  threshold : UInt16
  cosigners : GoMap Address Bool
  cosignerThreshold : UInt16

/-- `newProposal`: the cosigner threshold is cut to 16 bits. -/
def newProposal (data : DataFixed) (threshold : UInt16) (cosigners : GoMap Address Bool)
    (cosignerThreshold : UInt64) : Proposal :=
  ⟨some data, threshold, cosigners, cosignerThreshold.toUInt16⟩

/-- A recorded vote. A Go map has fewer than `2^63` entries, so the sequence
number, a uint64 of the map's size, is that size. -/
structure Vote where
  sequence : Nat
  time : Time
  signature : Bytes
  additionalVariableMessage : Bytes
  deriving DecidableEq, Repr

structure VoteBox where
  iID : Hash
  iHash : Hash
  proposer : Address
  proposal : Proposal
  votes : GoMap Address Vote
  voteHash : Hash
  startTime : Time
  endTime : Time
  weight : UInt16
  cosignerWeight : UInt16
  finalized : Bool
  deleted : Bool

/-- `voting.Receipt`. -/
structure Receipt where
  instructionHash : Hash
  sequence : Nat
  signature : Bytes
  additionalVariableMessageHash : Hash
  timestamp : UInt64
  voteHash : Hash
  deriving DecidableEq, Repr

/-- `voterGroup`: two bits, provider and cosigner. -/
inductive VoterGroup
  | invalidVoter | provider | cosigner | both
  deriving DecidableEq, Repr

/-- The group of a signer, by voter and cosigner. -/
def VoterGroup.ofBits : Bool → Bool → VoterGroup
  | false, false => .invalidVoter
  | true, false => .provider
  | false, true => .cosigner
  | true, true => .both

/-- Whether its weight counts. -/
def VoterGroup.isProvider : VoterGroup → Bool
  | .provider | .both => true
  | _ => false

/-- Whether it counts as a cosigner. -/
def VoterGroup.isCosigner : VoterGroup → Bool
  | .cosigner | .both => true
  | _ => false

/-- `cosigners[signer]`. -/
def isCosigner (cosigners : GoMap Address Bool) (signer : Address) : Bool :=
  (cosigners.get? signer).getD false

def voterGroupCheck (signer : Address) (voterDataMap : GoMap Address UInt16) (cosigners : GoMap Address Bool) :
    VoterGroup × UInt16 :=
  let vd := voterDataMap.get? signer
  (.ofBits vd.isSome (isCosigner cosigners signer), vd.getD 0)

/-- `computeThreshold`, for `0 ≤ bips ≤ 10000`. -/
def computeThreshold (total : UInt16) (bips : Int) : UInt16 :=
  .ofNat (total.toNat * bips.toNat / Meta.maxBIPS)

section Operations

variable (dep : Deps)

/-- `newVoteBox` followed by the two times `buildVoteBox` sets. -/
def newVoteBox (data : DataFixed) (proposer : Address) (threshold : UInt16) (cosigners : GoMap Address Bool)
    (cosignerThreshold : UInt64) (startTime endTime : Time) : Except PkgErr VoteBox := do
  let hash ← dep.instruction.initialVoteHash data
  let iHash ← dep.instruction.hashFixed data
  return {
    iID := data.instructionID
    iHash
    proposer
    proposal := newProposal data threshold cosigners cosignerThreshold
    votes := ∅
    voteHash := hash
    startTime
    endTime
    weight := 0
    cosignerWeight := 0
    finalized := false
    deleted := false }

/-- The vote `addVote` stores: its sequence number is the number of votes
before it. -/
def VoteBox.nextVote (vb : VoteBox) (now : Time) (signature avm : Bytes) : Vote :=
  ⟨vb.votes.size, now, signature, avm⟩

/-- The writes of `addVote` once a vote is accepted, before the latch. -/
def VoteBox.record (vb : VoteBox) (signer : Address) (weight : UInt16) (vote : Vote) (voterGroup : VoterGroup)
    (voteHash : Hash) : VoteBox :=
  { vb with
    voteHash
    votes := vb.votes.set signer vote
    weight := vb.weight + weight
    cosignerWeight := if voterGroup.isCosigner then vb.cosignerWeight + 1 else vb.cosignerWeight }

/-- The gate of the latch. -/
def VoteBox.passes (vb : VoteBox) : Bool :=
  vb.weight > vb.proposal.threshold && vb.cosignerWeight ≥ vb.proposal.cosignerThreshold

/-- `voteBox.addVote`. The flag is true only when this vote finalized the box. -/
def VoteBox.addVote (vb : VoteBox) (signer : Address) (weight : UInt16)
    (signature additionalVariableMessage : Bytes) (voterGroup : VoterGroup) (now : Time) :
    VoteBox × Except VoteErr (Receipt × Bool) :=
  if voterGroup = .invalidVoter then (vb, .error .invalidVoter)
  else if vb.endTime.before now then (vb, .error .votingEnded)
  else if (vb.votes.get? signer).isSome then (vb, .error .signatureAlreadyStored)
  else
    let vote := vb.nextVote now signature additionalVariableMessage
    match dep.instruction.nextVoteHash vb.voteHash vote.sequence signature additionalVariableMessage now.unixU64 with
    | (voteHash, some e) => ({ vb with voteHash }, .error (.nextVoteHash e))
    | (voteHash, none) =>
      let vb' := vb.record signer weight vote voterGroup voteHash
      let receipt : Receipt := {
        instructionHash := vb.iHash
        sequence := vote.sequence
        signature
        additionalVariableMessageHash := dep.instruction.keccak256Hash additionalVariableMessage
        timestamp := now.unixU64
        voteHash }
      if !vb.finalized && vb'.passes then ({ vb' with finalized := true }, .ok (receipt, true))
      else (vb', .ok (receipt, false))

/-- `signersData`: three slices of the map's size, each vote written at its
sequence number. -/
def VoteBox.signersData (vb : VoteBox) : List Bytes × List Bytes × List UInt64 :=
  let write {α : Type} (f : Vote → α) (zero : α) : List α :=
    vb.votes.values.foldl (fun l v => l.set v.sequence (f v)) (List.replicate vb.votes.size zero)
  (write Vote.signature [], write Vote.additionalVariableMessage [], write (·.time.unixU64) 0)

inductive ActionErr
  | alreadyDeleted
  | notFinalized
  | marshal (e : PkgErr)
  deriving DecidableEq, Repr

/-- `voteBox.Action`. -/
def VoteBox.action (vb : VoteBox) (tag : SubmissionTag) : Except ActionErr Action :=
  if vb.deleted then .error .alreadyDeleted
  else if !vb.finalized then .error .notFinalized
  else match vb.proposal.instruction with
    -- only `delete` clears the instruction, and it sets `deleted`
    | none => .error .alreadyDeleted
    | some data => match dep.instruction.marshal data with
      | .error e => .error (.marshal e)
      | .ok m =>
        let (s, avm, ts) := vb.signersData
        .ok ⟨⟨data.instructionID, .instruction, tag, m⟩, s, avm, ts, []⟩

/-- `voteBox.delete`. -/
def VoteBox.delete (vb : VoteBox) : VoteBox :=
  { vb with proposal := { vb.proposal with cosigners := ∅, instruction := none }, votes := ∅, deleted := true }

/-- The operation whose threshold action waits for the end of the voting. -/
def isRestore (opType opCommand : Hash) : Bool :=
  opType = dep.op.typeHash .wallet ∧ opCommand = dep.op.commandHash .keyDataProviderRestore

/-- The actions `scheduleEnd` builds under its locks; an action that cannot be
built is logged and skipped. -/
def VoteBox.endActions (vb : VoteBox) (finalizedHash : Hash) : List Action :=
  match vb.proposal.instruction with
  | none => []
  | some data =>
    if !vb.finalized then []
    else if isRestore dep data.opType data.opCommand then
      (vb.action dep .threshold).toOption.toList ++ (vb.action dep .end).toOption.toList
    else if vb.iHash ≠ finalizedHash then []
    else (vb.action dep .end).toOption.toList

end Operations

/-! ## What a vote does to a box -/

section Spec

variable {dep : Deps} {vb vb' : VoteBox} {signer : Address} {weight : UInt16} {signature avm : Bytes}
  {voterGroup : VoterGroup} {now : Time}

/-- **Accepted.** The signer was a voter who had not voted and the box was
open; the vote is recorded, and the box latches when it passes. -/
theorem VoteBox.addVote_ok {receipt : Receipt} {reached : Bool}
    (h : vb.addVote dep signer weight signature avm voterGroup now = (vb', .ok (receipt, reached))) :
    voterGroup ≠ .invalidVoter ∧ vb.endTime.before now = false ∧ vb.votes.get? signer = none ∧
      ∃ voteHash, ∃ r, r = vb.record signer weight (vb.nextVote now signature avm) voterGroup voteHash ∧
        reached = (!vb.finalized && r.passes) ∧ vb' = { r with finalized := vb.finalized || r.passes } := by
  unfold VoteBox.addVote at h
  split at h
  · cases h
  next hvg =>
  split at h
  · cases h
  next hend =>
  split at h
  · cases h
  next hnew =>
  dsimp only at h
  split at h
  · cases h
  next voteHash _ =>
  refine ⟨hvg, by simpa using hend, by simpa using hnew, voteHash, _, rfl, ?_⟩
  set r := vb.record signer weight (vb.nextVote now signature avm) voterGroup voteHash
  have hf : r.finalized = vb.finalized := rfl
  split at h
  next hp =>
    simp only [Prod.mk.injEq, Except.ok.injEq] at h
    obtain ⟨rfl, -, rfl⟩ := h
    rw [Bool.and_eq_true] at hp
    exact ⟨by rw [hp.1, hp.2]; rfl, by rw [hp.2, Bool.or_true]⟩
  next hp =>
    simp only [Prod.mk.injEq, Except.ok.injEq] at h
    obtain ⟨rfl, -, rfl⟩ := h
    rw [Bool.not_eq_true] at hp
    -- an open box that does not pass stays open, a finalized one stays finalized
    have hlatch : (vb.finalized || r.passes) = r.finalized := by
      rw [hf]; revert hp; cases vb.finalized <;> cases r.passes <;> decide
    exact ⟨hp.symm, by rw [hlatch]⟩

/-- **Refused.** At most the vote hash has moved. -/
theorem VoteBox.addVote_error {e : VoteErr}
    (h : vb.addVote dep signer weight signature avm voterGroup now = (vb', .error e)) :
    ∃ voteHash, vb' = { vb with voteHash } := by
  unfold VoteBox.addVote at h
  split at h
  · exact ⟨vb.voteHash, (Prod.mk.inj h).1.symm⟩
  split at h
  · exact ⟨vb.voteHash, (Prod.mk.inj h).1.symm⟩
  split at h
  · exact ⟨vb.voteHash, (Prod.mk.inj h).1.symm⟩
  dsimp only at h
  split at h
  next voteHash err _ => exact ⟨voteHash, (Prod.mk.inj h).1.symm⟩
  next => split at h <;> cases h

/-- A new box: nobody has voted, nothing is counted, it is open. -/
theorem newVoteBox_ok_iff {data : DataFixed} {proposer : Address} {threshold : UInt16}
    {cosigners : GoMap Address Bool} {cosignerThreshold : UInt64} {startTime endTime : Time} :
    newVoteBox dep data proposer threshold cosigners cosignerThreshold startTime endTime = .ok vb ↔
      ∃ voteHash iHash, dep.instruction.initialVoteHash data = .ok voteHash ∧
        dep.instruction.hashFixed data = .ok iHash ∧ vb = {
          iID := data.instructionID, iHash, proposer
          proposal := newProposal data threshold cosigners cosignerThreshold
          votes := ∅, voteHash, startTime, endTime, weight := 0, cosignerWeight := 0
          finalized := false, deleted := false } := by
  simp only [newVoteBox, Except.bind_ok_iff, Except.pure_ok_iff]
  constructor
  · rintro ⟨voteHash, hi, iHash, hf, rfl⟩
    exact ⟨voteHash, iHash, hi, hf, rfl⟩
  · rintro ⟨voteHash, iHash, hi, hf, rfl⟩
    exact ⟨voteHash, hi, iHash, hf, rfl⟩

end Spec

end TeeProxy.Voting
