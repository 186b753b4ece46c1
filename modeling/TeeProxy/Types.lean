/-
The data the proxy's packages pass to each other, and the packages it
imports that are not in the repository.

A hash is 32 bytes and an address 20, read as big-endian numbers, so Go's
byte-wise `Cmp` is the order of the numbers. What the proxy calls of
go-flare-common, tee-node and go-ethereum is a parameter (`OpPkg`,
`InstructionPkg`): its functions are arbitrary, with only the laws their
documentation states as fields.
-/
import TeeProxy.Lib.GoMap
import TeeProxy.Lib.GoTime
import Mathlib.Algebra.Order.BigOperators.Group.Finset
import Mathlib.Data.BitVec

namespace TeeProxy

/-- `common.Hash`. -/
abbrev Hash := BitVec 256

/-- `common.Address`. -/
abbrev Address := BitVec 160

/-- A byte string. -/
abbrev Bytes := List UInt8

/-- The text of an error a package outside the repository returns. -/
abbrev PkgErr := String

/-! ## Operations -/

/-- The operation types the proxy names. -/
inductive OpType
  | wallet | fdc2 | get | policy | governance
  deriving DecidableEq, Repr

/-- The operation commands the proxy names. -/
inductive OpCommand
  | initializePolicy | updatePolicy | keyInfo | keyProof | teeInfo | teeBackup
  | keyDataProviderRestore | keyDataProviderRestoreTest | keyDirectRestore
  | pay | reissue | vrf | teeAttestation | keyGenerate | keyDelete | prove | setMachinePathList
  deriving DecidableEq, Repr

/-- go-flare-common's `op`: each type and command has a hash, and
`HashToOPCommand` is the inverse of `Hash`. -/
structure OpPkg where
  typeHash : OpType → Hash
  commandHash : OpCommand → Hash
  hashToOPCommand : Hash → Option OpCommand
  hashToOPCommand_iff : ∀ h c, hashToOPCommand h = some c ↔ commandHash c = h

theorem OpPkg.commandHash_injective (op : OpPkg) : Function.Injective op.commandHash := by
  intro c d h
  have hc := (op.hashToOPCommand_iff _ c).mpr rfl
  rw [h, (op.hashToOPCommand_iff _ d).mpr rfl] at hc
  exact (Option.some.inj hc).symm

/-- Commands numbered from one, as hashes: the laws can be met. -/
def OpPkg.numbered : OpPkg where
  typeHash t := .ofNat 256 (t.ctorIdx + 1)
  commandHash c := .ofNat 256 (c.ctorIdx + 1)
  hashToOPCommand h :=
    [.initializePolicy, .updatePolicy, .keyInfo, .keyProof, .teeInfo, .teeBackup, .keyDataProviderRestore,
      .keyDataProviderRestoreTest, .keyDirectRestore, .pay, .reissue, .vrf, .teeAttestation, .keyGenerate,
      .keyDelete, .prove, .setMachinePathList].find? fun c : OpCommand => BitVec.ofNat 256 (c.ctorIdx + 1) = h
  hashToOPCommand_iff h c := by
    constructor
    · intro hf; simpa using List.find?_some hf
    · rintro rfl; cases c <;> rfl

/-! ## Instructions -/

/-- `instruction.DataFixed`: the part of an instruction all voters sign alike. -/
structure DataFixed where
  instructionID : Hash
  teeID : Address
  timestamp : UInt64
  rewardEpochID : UInt32
  opType : Hash
  opCommand : Hash
  cosigners : List Address
  cosignersThreshold : UInt64
  originalMessage : Bytes
  additionalFixedMessage : Bytes
  deriving DecidableEq, Repr

/-- `instruction.Data`. -/
structure Data extends DataFixed where
  additionalVariableMessage : Bytes
  deriving DecidableEq, Repr

/-- go-flare-common's `instruction`, go-ethereum's Keccak and the JSON form
of an instruction. `NextVoteHash` returns a hash with its error, as a Go
function does. -/
structure InstructionPkg where
  hashFixed : DataFixed → Except PkgErr Hash
  initialVoteHash : DataFixed → Except PkgErr Hash
  nextVoteHash : Hash → Nat → Bytes → Bytes → UInt64 → Hash × Option PkgErr
  keccak256Hash : Bytes → Hash
  marshal : DataFixed → Except PkgErr Bytes

/-- Instructions told apart by their timestamps alone. -/
def InstructionPkg.stamped : InstructionPkg where
  hashFixed d := .ok (.ofNat 256 (d.timestamp.toNat + 1))
  initialVoteHash _ := .ok 0
  nextVoteHash h _ _ _ _ := (h + 1, none)
  keccak256Hash _ := 0
  marshal d := .ok [d.timestamp.toUInt8]

/-! ## Actions -/

/-- `types.SubmissionTag`, a string type with three constants. -/
abbrev SubmissionTag := String

def SubmissionTag.submit : SubmissionTag := "submit"
def SubmissionTag.threshold : SubmissionTag := "threshold"
def SubmissionTag.end : SubmissionTag := "end"

/-- `types.ActionType`. -/
inductive ActionType
  | instruction | direct
  deriving DecidableEq, Repr

/-- `types.ActionData`. -/
structure ActionData where
  id : Hash
  type : ActionType
  submissionTag : SubmissionTag
  message : Bytes
  deriving DecidableEq, Repr

/-- `types.Action`. -/
structure Action where
  data : ActionData
  signatures : List Bytes
  additionalVariableMessages : List Bytes
  timestamps : List UInt64
  additionalActionData : Bytes
  deriving DecidableEq, Repr

/-- `types.ActionResult`, what the node makes of an action. -/
structure ActionResult where
  id : Hash
  submissionTag : SubmissionTag
  status : UInt8
  opType : Hash
  opCommand : Hash
  data : Bytes
  deriving DecidableEq, Repr

/-- `types.ActionResponse`: a result with the node's signature. -/
structure ActionResponse where
  result : ActionResult
  signature : Bytes
  deriving DecidableEq, Repr

/-! ## Signing policies -/

/-- go-flare-common's `voters.Set`: the list of voters and the map of their
weights name the same addresses. -/
structure VoterSet where
  voters : List Address
  voterDataMap : GoMap Address UInt16
  totalWeight : UInt16
  mem_voters : ∀ a, a ∈ voters ↔ a ∈ voterDataMap.keys

/-- The set of the voters of a map of weights. -/
def VoterSet.ofMap (m : GoMap Address UInt16) : VoterSet where
  voters := m.keys
  voterDataMap := m
  totalWeight := .ofNat (m.sumBy fun _ w => w.toNat)
  mem_voters _ := Iff.rfl

/-- go-flare-common's `policy.SigningPolicy`. -/
structure SigningPolicy where
  rewardEpochID : UInt32
  threshold : UInt16
  voters : VoterSet

/-- A voter's weight, zero for anyone else. -/
def SigningPolicy.weight (p : SigningPolicy) (a : Address) : Nat :=
  ((p.voters.voterDataMap.get? a).map UInt16.toNat).getD 0

/-- The sum of the weights of the policy's distinct voters. -/
def SigningPolicy.weightSum (p : SigningPolicy) : Nat :=
  p.voters.voterDataMap.sumBy fun _ w => w.toNat

theorem SigningPolicy.weight_eq_zero {p : SigningPolicy} {a : Address} (h : a ∉ p.voters.voters) :
    p.weight a = 0 := by
  have : p.voters.voterDataMap.get? a = none :=
    GoMap.not_mem_keys.mp fun hk => h ((p.voters.mem_voters a).mpr hk)
  simp [weight, this]

theorem SigningPolicy.sum_weight_le (p : SigningPolicy) (V : Finset Address) : ∑ a ∈ V, p.weight a ≤ p.weightSum := by
  have hsum : ∑ a ∈ p.voters.voterDataMap.keys.toFinset, p.weight a = p.weightSum := by
    rw [List.sum_toFinset _ p.voters.voterDataMap.nodup_keys, ← GoMap.sumBy_key]
    refine GoMap.sumBy_congr fun a w ha => ?_
    simp [weight, ha]
  rw [← hsum]
  refine Finset.sum_le_sum_of_ne_zero fun a _ ha => ?_
  by_contra hk
  exact ha (p.weight_eq_zero fun hv => hk (List.mem_toFinset.mpr ((p.voters.mem_voters a).mp hv)))

end TeeProxy
