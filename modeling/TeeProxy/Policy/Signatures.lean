/-
Collecting the voters' signatures of a new signing policy
(`pkg/policy/signatures.go`).

`collectSignatures` polls the indexer. Each poll reads the next window of
calls of `signNewSigningPolicy` and visits them; a call that recovers to a
voter of the active policy who has not been counted adds the voter's weight,
and the first one past the threshold ends the collection. What a poll meets,
the context, the indexer's state and its table of transactions, is data of the
poll, so queries fail in any pattern and the table grows between them.

Two results. The signatures returned are those of distinct voters whose
weights, as natural numbers, pass the threshold with the last of them and not
before. And the windows, however the polls fall, amount to one pass over the
history.
-/
import TeeProxy.Indexer
import TeeProxy.Lib.GoPanic
import TeeProxy.Lib.Hex
import TeeProxy.Policy.Update

namespace TeeProxy.Policy

open GoPanic (Fault returns deref sliceFrom recovered)
open Indexer (Transaction)
open Scan (Flow loop)

/-! ## Calldata -/

/-- `registry.Signature`. -/
structure Signature where
  v : UInt8
  r : Hash
  s : Hash
  deriving DecidableEq, Repr

/-- What `abi.ConvertType` makes of a value, for the assertion on its result. -/
inductive Converted (α : Type)
  | ofType (a : α)
  | ofOtherType
  | panics
  deriving DecidableEq, Repr

/-- What the collection calls of go-ethereum and go-flare-common: the ABI of
`signNewSigningPolicy` with its selector, and the recovery of a signer.
`convert.BigToUint32Safe` may refuse any number. -/
structure SignaturePkg (Value PublicKey : Type) where
  signNewSigningPolicySel : BitVec 32
  unpack : Bytes → Except (Fault PkgErr) (List Value)
  convertBig : Value → Converted Int
  convertHash : Value → Converted Hash
  convertSignature : Value → Converted Signature
  bigToUint32Safe : Int → Except PkgErr UInt32
  textHash : Hash → Hash
  sigToPub : Hash → Bytes → Except PkgErr PublicKey
  pubkeyToAddress : PublicKey → Address
  chainBoundHash : SigningPolicy → UInt64 → Bytes

/-- The errors of `recoverInputsSignNewSigningPolicy`. -/
inductive RecoverErr
  | package (e : PkgErr)
  | invalidFirstInput
  | invalidSecondInput
  | invalidThirdInput
  | recoveredPanic
  deriving DecidableEq, Repr

/-- The errors of `checkAndExtract`. -/
inductive ExtractErr
  | decoding (e : Hex.DecodeErr)
  | recoveringInputs (e : RecoverErr)
  | invalidDataProvider
  | recoveringSigner (e : PkgErr)
  deriving DecidableEq, Repr

/-- A type assertion, with the error of one that fails. -/
def Converted.assert {α : Type} (e : RecoverErr) : Converted α → Except (Fault RecoverErr) α
  | .ofType a => .ok a
  | .ofOtherType => .error (.err e)
  | .panics => .error .panicked

/-- The bytes of a hash, most significant first. -/
def hashBytes (h : Hash) : Bytes := (List.range 32).map fun i => .ofNat (h.toNat / 256 ^ (31 - i))

/-- `common.BytesToHash`, which takes the last 32 bytes. -/
def bytesToHash (b : Bytes) : Hash := .ofNat 256 (b.foldl (fun n x => n * 256 + x.toNat) 0)

/-- `[R||S||V-27]`; the subtraction wraps. -/
def serializeSig (s : Signature) : Bytes := hashBytes s.r ++ hashBytes s.s ++ [s.v - 27]

section Calldata

variable {Value PublicKey : Type} (pkg : SignaturePkg Value PublicKey)

/-- The inputs of a call, from its calldata with the selector in front. Data
too short for a selector, and values of other types than the ABI's, panic. -/
def recoverInputsSignNewSigningPolicy (input : Bytes) : Except RecoverErr (UInt32 × Hash × Signature) :=
  recovered .recoveredPanic do
    let input ← sliceFrom 4 input
    let inputs ← (pkg.unpack input).mapError (Fault.map .package)
    let i0 ← deref inputs[0]?
    let ip0 ← (pkg.convertBig i0).assert .invalidFirstInput
    let signingPolicyID ← returns ((pkg.bigToUint32Safe ip0).mapError .package)
    let i1 ← deref inputs[1]?
    let newSigningPolicyHash ← (pkg.convertHash i1).assert .invalidSecondInput
    let i2 ← deref inputs[2]?
    let signature ← (pkg.convertSignature i2).assert .invalidThirdInput
    pure (signingPolicyID, newSigningPolicyHash, signature)

def recoverSigner (hash : Hash) (signature : Signature) : Except PkgErr PublicKey :=
  pkg.sigToPub (pkg.textHash hash) (serializeSig signature)

/-- `checkAndExtract`: the call is for the epoch and the hash. -/
def checkAndExtract (input : Bytes) (expectedHash : Hash) (expectedRewardEpochID : UInt32) :
    Except ExtractErr (PublicKey × Signature) := do
  let inputB ← (Hex.decode input).mapError .decoding
  let (spID, hash, sig) ← (recoverInputsSignNewSigningPolicy pkg inputB).mapError .recoveringInputs
  if spID ≠ expectedRewardEpochID ∨ hash ≠ expectedHash then throw .invalidDataProvider
  let signer ← (recoverSigner pkg expectedHash sig).mapError .recoveringSigner
  pure (signer, sig)

end Calldata

/-! ## The collection -/

/-- `Voters.VoterWeightForAddress`: a voter's weight, zero for anyone else. -/
def voterWeightForAddress (voters : VoterSet) (a : Address) : UInt16 := (voters.voterDataMap.get? a).getD 0

/-- The errors of `collectSignatures`. -/
inductive CollectErr
  | notConsecutivePolicy
  | context (e : PkgErr)
  | deadlineExceeded
  | tooManyErrors (last : PkgErr)
  deriving DecidableEq, Repr

/-- The arguments of a collection. -/
structure Collection where
  flareSystemsManagerAddress : Address
  startBlock : Int64
  deadline : UInt64
  newPolicy : SigningPolicy
  activePolicy : SigningPolicy
  chainID : UInt64

/-- What has been collected: `weightCollected`, `sigs` and `voted`. -/
structure Tally where
  weightCollected : UInt16
  sigs : List Signature
  voted : GoMap Address Bool

/-- The variables of the main loop. -/
structure Vars where
  fromBlock : Int64
  tally : Tally
  errCount : Nat

/-- What one iteration of the main loop meets: the context's error at its
head, the answer of `FetchState`, the table of transactions the query reads or
the query's error, and the context's error if it is done while the loop
sleeps. -/
structure Poll where
  ctxErr : Option PkgErr
  state : Except PkgErr Indexer.State
  transactions : Except PkgErr (List Transaction)
  cancelled : Option PkgErr

/-- What the queries of a poll answer, or the error of the one that fails. -/
def Poll.answer (p : Poll) : Except PkgErr (Indexer.State × List Transaction) := do
  let state ← p.state
  let transactions ← p.transactions
  pure (state, transactions)

/-- `maxAllowedConsecutiveErrors`. -/
def maxAllowedConsecutiveErrors : Nat := 15

def Tally.empty : Tally := ⟨0, [], ∅⟩

/-- One more voter. -/
def Tally.add (t : Tally) (addr : Address) (sig : Signature) (weight : UInt16) : Tally :=
  ⟨t.weightCollected + weight, t.sigs ++ [sig], t.voted.set addr true⟩

/-- `voted[addr]`. -/
def Tally.hasVoted (t : Tally) (addr : Address) : Bool := (t.voted.get? addr).getD false

section Collect

variable {Value PublicKey : Type} (pkg : SignaturePkg Value PublicKey) (c : Collection)

def expectedHash : Hash := bytesToHash (pkg.chainBoundHash c.newPolicy c.chainID)

/-- The body of the loop over the transactions of a window; it breaks the main
loop once the threshold is passed. -/
def visit (t : Tally) (tx : Transaction) : Flow Tally Tally :=
  match checkAndExtract pkg tx.input (expectedHash pkg c) c.newPolicy.rewardEpochID with
  | .error _ => .next t
  | .ok (signer, sig) =>
    let addr := pkg.pubkeyToAddress signer
    let weight := voterWeightForAddress c.activePolicy.voters addr
    if 0 < weight ∧ t.hasVoted addr = false then
      let t' := t.add addr sig weight
      if c.activePolicy.threshold < t'.weightCollected then .leave t' else .next t'
    else .next t

/-- A query that failed: the same window is tried again, up to a bound. -/
def retry (v : Vars) (e : PkgErr) : Flow Vars (Except CollectErr (List Signature)) :=
  if v.errCount + 1 < maxAllowedConsecutiveErrors then .next { v with errCount := v.errCount + 1 }
  else .leave (.error (.tooManyErrors e))

/-- The rows of a window. -/
def fetchWindow (fromBlock : Int64) (state : Indexer.State) (transactions : List Transaction) : List Transaction :=
  Indexer.fetchTransactions transactions
    ⟨c.flareSystemsManagerAddress, pkg.signNewSigningPolicySel, fromBlock, state.index.toInt64⟩

/-- One iteration of the main loop. -/
def poll (v : Vars) (p : Poll) : Flow Vars (Except CollectErr (List Signature)) :=
  match p.ctxErr with
  | some e => .leave (.error (.context e))
  | none => match p.state with
    | .error e => retry v e
    | .ok state =>
      if c.deadline < state.blockTimestamp then .leave (.error .deadlineExceeded)
      else match p.transactions with
        | .error e => retry v e
        | .ok table => match loop (visit pkg c) v.tally (fetchWindow pkg c v.fromBlock state table) with
          | .leave t => .leave (.ok t.sigs)
          | .next t => match p.cancelled with
            | some e => .leave (.error (.context e))
            | none => .next ⟨state.index.toInt64, t, 0⟩

/-- `collectSignatures`, over what its iterations meet: `leave` is its return,
`next` a collection that is still polling when they are used up. -/
def collectSignatures (polls : List Poll) : Flow Vars (Except CollectErr (List Signature)) :=
  if c.newPolicy.rewardEpochID ≠ c.activePolicy.rewardEpochID + 1 then .leave (.error .notConsecutivePolicy)
  else loop (poll pkg c) ⟨c.startBlock, .empty, 0⟩ polls

end Collect

/-! ## What a visit does -/

section Visit

variable {Value PublicKey : Type} {pkg : SignaturePkg Value PublicKey} {c : Collection}
  {t t' : Tally} {tx : Transaction} {a : Address} {sig : Signature}

theorem checkAndExtract_ok_iff {input : Bytes} {hash : Hash} {epoch : UInt32} {signer : PublicKey} :
    checkAndExtract pkg input hash epoch = .ok (signer, sig) ↔
      ∃ inputB, Hex.decode input = .ok inputB ∧
        recoverInputsSignNewSigningPolicy pkg inputB = .ok (epoch, hash, sig) ∧
        recoverSigner pkg hash sig = .ok signer := by
  simp only [checkAndExtract, Except.bind_ok_iff, Except.mapError_ok_iff, Except.ite_throw_ok_iff,
    Except.pure_ok_iff, not_or, not_not, Prod.exists, Prod.mk.injEq]
  constructor
  · rintro ⟨inputB, hdec, id, h, sig', hrec, ⟨rfl, rfl⟩, signer', hs, rfl, rfl⟩
    exact ⟨inputB, hdec, hrec, hs⟩
  · rintro ⟨inputB, hdec, hrec, hs⟩
    exact ⟨inputB, hdec, epoch, hash, sig, hrec, ⟨rfl, rfl⟩, signer, hs, rfl, rfl⟩

/-- A transaction is a voter's signature of the new policy: `a` is whom it
recovers to. -/
def Endorses (pkg : SignaturePkg Value PublicKey) (c : Collection) (tx : Transaction) (a : Address)
    (sig : Signature) : Prop :=
  ∃ signer, checkAndExtract pkg tx.input (expectedHash pkg c) c.newPolicy.rewardEpochID = .ok (signer, sig) ∧
    pkg.pubkeyToAddress signer = a

/-- The address a signature of the new policy recovers to. -/
def signerOf (pkg : SignaturePkg Value PublicKey) (c : Collection) (sig : Signature) : Except PkgErr Address :=
  (recoverSigner pkg (expectedHash pkg c) sig).map pkg.pubkeyToAddress

theorem Endorses.signerOf (h : Endorses pkg c tx a sig) : signerOf pkg c sig = .ok a := by
  obtain ⟨signer, hx, rfl⟩ := h
  obtain ⟨-, -, -, hs⟩ := checkAndExtract_ok_iff.mp hx
  rw [Policy.signerOf, hs, Except.map]

/-- A transaction endorses for one address, with one signature. -/
theorem Endorses.unique {b : Address} {sig' : Signature} (h : Endorses pkg c tx a sig) (h' : Endorses pkg c tx b sig') :
    a = b ∧ sig = sig' := by
  obtain ⟨signer, hx, rfl⟩ := h
  obtain ⟨signer', hx', rfl⟩ := h'
  rw [hx, Except.ok.injEq, Prod.mk.injEq] at hx'
  obtain ⟨rfl, rfl⟩ := hx'
  exact ⟨rfl, rfl⟩

theorem toNat_voterWeightForAddress (policy : SigningPolicy) (a : Address) :
    (voterWeightForAddress policy.voters a).toNat = policy.weight a := by
  unfold voterWeightForAddress SigningPolicy.weight
  cases policy.voters.voterDataMap.get? a <;> rfl

theorem voterWeightForAddress_pos {policy : SigningPolicy} :
    0 < voterWeightForAddress policy.voters a ↔ 0 < policy.weight a := by
  rw [UInt16.lt_iff_toNat_lt, toNat_voterWeightForAddress]
  rfl

/-- The tally with the vote of `a`. -/
def Tally.count (c : Collection) (t : Tally) (a : Address) (sig : Signature) : Tally :=
  t.add a sig (voterWeightForAddress c.activePolicy.voters a)

/-- The vote of `a` is one to count. -/
structure Counts (pkg : SignaturePkg Value PublicKey) (c : Collection) (t : Tally) (tx : Transaction) (a : Address)
    (sig : Signature) : Prop where
  endorses : Endorses pkg c tx a sig
  weight_pos : 0 < c.activePolicy.weight a
  not_voted : t.hasVoted a = false

theorem visit_of_counts (h : Counts pkg c t tx a sig) : visit pkg c t tx =
    if c.activePolicy.threshold < (t.count c a sig).weightCollected then .leave (t.count c a sig)
    else .next (t.count c a sig) := by
  obtain ⟨⟨signer, hx, rfl⟩, hw, hv⟩ := h
  unfold visit
  rw [hx]
  exact if_pos ⟨voterWeightForAddress_pos.mpr hw, hv⟩

theorem visit_of_not_counts (h : ∀ a sig, ¬ Counts pkg c t tx a sig) : visit pkg c t tx = .next t := by
  unfold visit
  split
  next => rfl
  next signer sig hx =>
  exact if_neg fun hc => h _ sig ⟨⟨signer, hx, rfl⟩, voterWeightForAddress_pos.mp hc.1, hc.2⟩

theorem visit_cases (pkg : SignaturePkg Value PublicKey) (c : Collection) (t : Tally) (tx : Transaction) :
    (∀ a sig, ¬ Counts pkg c t tx a sig) ∧ visit pkg c t tx = .next t ∨
      ∃ a sig, Counts pkg c t tx a sig ∧ visit pkg c t tx =
        if c.activePolicy.threshold < (t.count c a sig).weightCollected then .leave (t.count c a sig)
        else .next (t.count c a sig) := by
  by_cases h : ∃ a sig, Counts pkg c t tx a sig
  · obtain ⟨a, sig, hc⟩ := h
    exact .inr ⟨a, sig, hc, visit_of_counts hc⟩
  · simp only [not_exists] at h
    exact .inl ⟨h, visit_of_not_counts h⟩

theorem hasVoted_count {b : Address} : (t.count c a sig).hasVoted b = true ↔ b = a ∨ t.hasVoted b = true := by
  unfold Tally.hasVoted Tally.count Tally.add
  rw [GoMap.get?_set]
  split
  next hb => simp [hb]
  next hb => simp [hb]

end Visit

/-! ## What a poll does -/

section Polls

variable {Value PublicKey : Type} {pkg : SignaturePkg Value PublicKey} {c : Collection} {v v' : Vars} {p : Poll}
  {state : Indexer.State} {table : List Transaction} {e : PkgErr}

theorem Poll.answer_ok_iff : p.answer = .ok (state, table) ↔ p.state = .ok state ∧ p.transactions = .ok table := by
  simp only [Poll.answer, Except.bind_ok_iff, Except.pure_ok_iff, Prod.mk.injEq]
  constructor
  · rintro ⟨s, hs, tx, ht, rfl, rfl⟩
    exact ⟨hs, ht⟩
  · rintro ⟨hs, ht⟩
    exact ⟨state, hs, table, ht, rfl, rfl⟩

/-- What a poll can come to. -/
inductive Polled (pkg : SignaturePkg Value PublicKey) (c : Collection) (v : Vars) (p : Poll) :
    Flow Vars (Except CollectErr (List Signature)) → Prop
  | done {e : PkgErr} (h : p.ctxErr = some e) : Polled pkg c v p (.leave (.error (.context e)))
  | retried {e : PkgErr} (h : p.answer = .error e) (hlt : v.errCount + 1 < maxAllowedConsecutiveErrors) :
      Polled pkg c v p (.next { v with errCount := v.errCount + 1 })
  | gaveUp {e : PkgErr} (h : p.answer = .error e) (hge : ¬ v.errCount + 1 < maxAllowedConsecutiveErrors) :
      Polled pkg c v p (.leave (.error (.tooManyErrors e)))
  | late {state : Indexer.State} (hs : p.state = .ok state) (h : c.deadline < state.blockTimestamp) :
      Polled pkg c v p (.leave (.error .deadlineExceeded))
  | passed {state : Indexer.State} {table : List Transaction} {t : Tally} (ha : p.answer = .ok (state, table))
      (hl : loop (visit pkg c) v.tally (fetchWindow pkg c v.fromBlock state table) = .leave t) :
      Polled pkg c v p (.leave (.ok t.sigs))
  | interrupted {e : PkgErr} (h : p.cancelled = some e) : Polled pkg c v p (.leave (.error (.context e)))
  | read {state : Indexer.State} {table : List Transaction} {t : Tally} (ha : p.answer = .ok (state, table))
      (hl : loop (visit pkg c) v.tally (fetchWindow pkg c v.fromBlock state table) = .next t) :
      Polled pkg c v p (.next ⟨state.index.toInt64, t, 0⟩)

theorem polled_retry (h : p.answer = .error e) : Polled pkg c v p (retry v e) := by
  unfold retry
  split
  next hlt => exact .retried h hlt
  next hge => exact .gaveUp h hge

theorem polled (pkg : SignaturePkg Value PublicKey) (c : Collection) (v : Vars) (p : Poll) :
    Polled pkg c v p (poll pkg c v p) := by
  unfold poll
  split
  next e hc => exact .done hc
  split
  next e hs => exact polled_retry (by rw [Poll.answer, hs]; rfl)
  next state hs =>
  split
  next hd => exact .late hs hd
  split
  next e ht => exact polled_retry (by rw [Poll.answer, hs, ht]; rfl)
  next table ht =>
  have ha := Poll.answer_ok_iff.mpr ⟨hs, ht⟩
  split
  next t hl => exact .passed ha hl
  next t hl =>
  split
  next e hc => exact .interrupted hc
  next => exact .read ha hl

/-- A poll the loop goes on from has failed, within the bound, or has visited
its window. -/
theorem poll_next (h : poll pkg c v p = .next v') :
    (∃ e, p.answer = .error e ∧ v' = { v with errCount := v.errCount + 1 }) ∨
    ∃ state table t, p.answer = .ok (state, table) ∧
      loop (visit pkg c) v.tally (fetchWindow pkg c v.fromBlock state table) = .next t ∧
      v' = ⟨state.index.toInt64, t, 0⟩ := by
  have hp := polled pkg c v p
  rw [h] at hp
  cases hp with
  | retried he _ => exact .inl ⟨_, he, rfl⟩
  | read ha hl => exact .inr ⟨_, _, _, ha, hl, rfl⟩

/-- Signatures are returned by a poll that has passed the threshold in its
window. -/
theorem poll_leave_ok {sigs : List Signature} (h : poll pkg c v p = .leave (.ok sigs)) :
    ∃ state table t, p.answer = .ok (state, table) ∧
      loop (visit pkg c) v.tally (fetchWindow pkg c v.fromBlock state table) = .leave t ∧ t.sigs = sigs := by
  have hp := polled pkg c v p
  rw [h] at hp
  cases hp with
  | passed ha hl => exact ⟨_, _, _, ha, hl, rfl⟩

/-- A collection that gets to polling is for consecutive policies. -/
theorem collectSignatures_eq {polls : List Poll} {x : Flow Vars (Except CollectErr (List Signature))}
    (h : collectSignatures pkg c polls = x) (hx : x ≠ .leave (.error .notConsecutivePolicy)) :
    c.newPolicy.rewardEpochID = c.activePolicy.rewardEpochID + 1 ∧
      loop (poll pkg c) ⟨c.startBlock, .empty, 0⟩ polls = x := by
  unfold collectSignatures at h
  split at h
  next => exact absurd h.symm hx
  next he => exact ⟨not_not.mp he, h⟩

end Polls

/-! ## A small ABI -/

/-- Values and keys are bytes; a signature recovers to its `V-27`. -/
def SignaturePkg.bytewise : SignaturePkg UInt8 UInt8 where
  signNewSigningPolicySel := 1
  unpack b := .ok b
  convertBig b := .ofType b.toNat
  convertHash b := .ofType (.ofNat 256 b.toNat)
  convertSignature b := .ofType ⟨b, 0, 0⟩
  bigToUint32Safe n := if 0 ≤ n ∧ n < 2 ^ 32 then .ok (.ofNat n.toNat) else .error "out of range"
  textHash h := h
  sigToPub _ b := .ok (b.getLastD 0)
  pubkeyToAddress b := .ofNat 160 b.toNat
  chainBoundHash _ _ := [7]

/-- Voters 1 and 2, of weights 40 and 30, with a threshold of 50. -/
def twoVoters (epoch : UInt32) : SigningPolicy :=
  ⟨epoch, 50, .ofMap (((∅ : GoMap Address UInt16).set 1 40).set 2 30)⟩

/-- From epoch 4 to epoch 5, above block 10. -/
def toEpochFive : Collection := ⟨9, 10, 100, twoVoters 5, twoVoters 4, 14⟩

def hexOf (b : UInt8) : Bytes := [b / 16, b % 16].map fun n => if n < 10 then n + 48 else n + 87

/-- A call at a block with a voter's signature of a hash for an epoch. -/
def signed (block : UInt64) (epoch hash voter : UInt8) : Transaction :=
  ⟨9, 1, block, [0, 0, 0, 0, epoch, hash, voter + 27].flatMap hexOf⟩

/-- A call at a block with two bytes that are not hex. -/
def garbled (block : UInt64) : Transaction := ⟨9, 1, block, [122, 122]⟩

/-- A poll that finds the indexer at a block. -/
def pollAt (index : UInt64) (table : List Transaction) : Poll := ⟨none, .ok ⟨index, 50⟩, .ok table, none⟩

/-- A poll whose transaction query fails. -/
def failingAt (index : UInt64) : Poll := ⟨none, .ok ⟨index, 50⟩, .error "timeout", none⟩

/-! ## The count -/

section Count

variable {Value PublicKey : Type} {pkg : SignaturePkg Value PublicKey} {c : Collection} {t t' : Tally}
  {tx : Transaction} {a : Address} {sig : Signature} {signers : List Address}

/-- A tally is the count of `signers`. -/
structure Counted (pkg : SignaturePkg Value PublicKey) (c : Collection) (t : Tally) (signers : List Address) :
    Prop where
  recover : t.sigs.map (signerOf pkg c) = signers.map .ok
  nodup : signers.Nodup
  voted : ∀ a, t.hasVoted a = true ↔ a ∈ signers
  positive : ∀ a ∈ signers, 0 < c.activePolicy.weight a
  weight : t.weightCollected.toNat = (signers.map c.activePolicy.weight).sum

/-- **A quorum.** The signatures are those of `signers`, distinct voters whose
weights pass the threshold, and do not without the last of them. -/
structure Quorum (pkg : SignaturePkg Value PublicKey) (c : Collection) (sigs : List Signature)
    (signers : List Address) : Prop where
  recover : sigs.map (signerOf pkg c) = signers.map .ok
  nodup : signers.Nodup
  voters : ∀ a ∈ signers, a ∈ c.activePolicy.voters.voters ∧ 0 < c.activePolicy.weight a
  passes : c.activePolicy.threshold.toNat < (signers.map c.activePolicy.weight).sum
  not_before : (signers.dropLast.map c.activePolicy.weight).sum ≤ c.activePolicy.threshold.toNat

/-- The count of `signers`, not past the threshold. -/
structure Pending (pkg : SignaturePkg Value PublicKey) (c : Collection) (t : Tally) (signers : List Address) :
    Prop extends Counted pkg c t signers where
  below : (signers.map c.activePolicy.weight).sum ≤ c.activePolicy.threshold.toNat

theorem mem_voters_of_weight_pos {policy : SigningPolicy} (h : 0 < policy.weight a) : a ∈ policy.voters.voters := by
  by_contra hv
  exact absurd (policy.weight_eq_zero hv) (Nat.pos_iff_ne_zero.mp h)

theorem sum_weight_le_of_nodup {policy : SigningPolicy} (h : signers.Nodup) :
    (signers.map policy.weight).sum ≤ policy.weightSum := by
  rw [← List.sum_toFinset _ h]
  exact policy.sum_weight_le _

theorem Pending.empty : Pending pkg c .empty [] where
  recover := rfl
  nodup := .nil
  voted a := by simp [Tally.hasVoted, Tally.empty]
  positive a ha := absurd ha List.not_mem_nil
  weight := rfl
  below := Nat.zero_le _

/-- A vote to count is counted without wrapping: the weights of distinct
voters stay within 16 bits. -/
theorem Counted.count (hsum : c.activePolicy.weightSum ≤ 65535) (h : Counted pkg c t signers)
    (hc : Counts pkg c t tx a sig) : Counted pkg c (t.count c a sig) (signers ++ [a]) := by
  have hnew : a ∉ signers := fun hm => by
    have := (h.voted a).mpr hm
    rw [hc.not_voted] at this
    cases this
  have hnodup : (signers ++ [a]).Nodup :=
    List.nodup_append.mpr ⟨h.nodup, List.nodup_singleton a, fun x hx y hy hxy => by
      rw [List.mem_singleton.mp hy] at hxy
      exact hnew (hxy ▸ hx)⟩
  have hfits : ((signers ++ [a]).map c.activePolicy.weight).sum ≤ 65535 :=
    (sum_weight_le_of_nodup hnodup).trans hsum
  rw [List.map_append, List.sum_append, List.map_singleton, List.sum_singleton] at hfits
  constructor
  · change (t.sigs ++ [sig]).map _ = _
    rw [List.map_append, List.map_append, h.recover, List.map_singleton, List.map_singleton, hc.endorses.signerOf]
  · exact hnodup
  · intro b
    rw [hasVoted_count, h.voted, List.mem_append, List.mem_singleton, or_comm]
  · intro b hb
    rcases List.mem_append.mp hb with hb | hb
    · exact h.positive b hb
    · rw [List.mem_singleton.mp hb]; exact hc.weight_pos
  · rw [List.map_append, List.sum_append, List.map_singleton, List.sum_singleton]
    change (t.weightCollected + voterWeightForAddress c.activePolicy.voters a).toNat = _
    rw [UInt16.toNat_add, toNat_voterWeightForAddress, h.weight, Nat.mod_eq_of_lt (by omega)]

/-- **One visit.** It keeps the count below the threshold, or is the vote that
passes it. -/
theorem Pending.visit (hsum : c.activePolicy.weightSum ≤ 65535) (h : Pending pkg c t signers) (tx : Transaction) :
    (visit pkg c t tx = .next t ∨ ∃ a t', visit pkg c t tx = .next t' ∧ Pending pkg c t' (signers ++ [a])) ∨
      ∃ a t', visit pkg c t tx = .leave t' ∧ Counted pkg c t' (signers ++ [a]) ∧
        c.activePolicy.threshold.toNat < ((signers ++ [a]).map c.activePolicy.weight).sum := by
  rcases visit_cases pkg c t tx with ⟨-, hv⟩ | ⟨a, sig, hc, hv⟩
  · exact .inl (.inl hv)
  have hcount := h.toCounted.count hsum hc
  have hiff : c.activePolicy.threshold < (t.count c a sig).weightCollected ↔
      c.activePolicy.threshold.toNat < ((signers ++ [a]).map c.activePolicy.weight).sum := by
    rw [UInt16.lt_iff_toNat_lt, hcount.weight]
  split at hv
  next hp => exact .inr ⟨a, _, hv, hcount, hiff.mp hp⟩
  next hp => exact .inl (.inr ⟨a, _, hv, hcount, Nat.not_lt.mp (mt hiff.mpr hp)⟩)

/-- Where a loop over transactions goes on, the count is below the
threshold. -/
theorem Pending.loop_next (hsum : c.activePolicy.weightSum ≤ 65535) (h : Pending pkg c t signers)
    {txs : List Transaction} (hl : loop (Policy.visit pkg c) t txs = .next t') :
    ∃ signers', Pending pkg c t' signers' := by
  refine Scan.loop_inv (P := fun _ t => ∃ signers, Pending pkg c t signers) ⟨signers, h⟩ ?_ hl
  rintro - tx u u' ⟨signers, hu⟩ hv
  rcases hu.visit hsum tx with (hv' | ⟨a, w, hv', hw⟩) | ⟨a, w, hv', -⟩
  · rw [hv] at hv'; cases hv'; exact ⟨signers, hu⟩
  · rw [hv] at hv'; cases hv'; exact ⟨_, hw⟩
  · rw [hv] at hv'; cases hv'

/-- Where it is left, the last vote has passed the threshold. -/
theorem Pending.loop_leave (hsum : c.activePolicy.weightSum ≤ 65535) (h : Pending pkg c t signers)
    {txs : List Transaction} (hl : loop (Policy.visit pkg c) t txs = .leave t') :
    ∃ signers', Counted pkg c t' signers' ∧ Quorum pkg c t'.sigs signers' := by
  obtain ⟨before, tx, after, u, -, hu, hleave⟩ := Scan.exists_of_loop_leave hl
  obtain ⟨signers', hu⟩ := h.loop_next hsum hu
  rcases hu.visit hsum tx with (hv | ⟨a, w, hv, -⟩) | ⟨a, w, hv, hw, hpass⟩
  · rw [hleave] at hv; cases hv
  · rw [hleave] at hv; cases hv
  · rw [hleave] at hv
    cases hv
    refine ⟨signers' ++ [a], hw, hw.recover, hw.nodup, fun b hb => ?_, hpass, ?_⟩
    · exact ⟨mem_voters_of_weight_pos (hw.positive b hb), hw.positive b hb⟩
    · rw [List.dropLast_concat]; exact hu.below

theorem pending_of_polling (hsum : c.activePolicy.weightSum ≤ 65535) {polls : List Poll} {start : Int64} {v : Vars}
    (h : loop (poll pkg c) ⟨start, .empty, 0⟩ polls = .next v) : ∃ signers, Pending pkg c v.tally signers := by
  refine Scan.loop_inv (P := fun _ v => ∃ signers, Pending pkg c v.tally signers) ⟨[], .empty⟩ ?_ h
  rintro - p w w' ⟨signers, hw⟩ hp
  rcases poll_next hp with ⟨e, -, rfl⟩ | ⟨state, table, t, -, hl, rfl⟩
  · exact ⟨signers, hw⟩
  · exact hw.loop_next hsum hl

theorem quorum_of_returned (hsum : c.activePolicy.weightSum ≤ 65535) {polls : List Poll} {sigs : List Signature}
    (h : collectSignatures pkg c polls = .leave (.ok sigs)) : ∃ signers, Quorum pkg c sigs signers := by
  obtain ⟨before, p, after, v, -, hv, hleave⟩ := Scan.exists_of_loop_leave (collectSignatures_eq h (by simp)).2
  obtain ⟨signers, hpending⟩ := pending_of_polling hsum hv
  obtain ⟨state, table, t, -, hl, rfl⟩ := poll_leave_ok hleave
  obtain ⟨signers', -, hq⟩ := hpending.loop_leave hsum hl
  exact ⟨signers', hq⟩

/-- **The collection is sound and exact.** Signatures are returned for
consecutive epochs only, and are a quorum: they recover to distinct voters of
positive weight, whose weights pass the threshold, and do not without the
last. And the 16-bit sum never wraps: at every transaction any poll visits, it
is the sum of the weights of those counted. -/
theorem collected_quorum (pkg : SignaturePkg Value PublicKey) (c : Collection) (polls : List Poll)
    (hactive : c.activePolicy.rewardEpochID.toNat < 2 ^ 32 - 1) (hsum : c.activePolicy.weightSum ≤ 65535) :
    (∀ sigs, collectSignatures pkg c polls = .leave (.ok sigs) →
      c.newPolicy.rewardEpochID.toNat = c.activePolicy.rewardEpochID.toNat + 1 ∧
        ∃ signers, Quorum pkg c sigs signers) ∧
    ∀ v, collectSignatures pkg c polls = .next v → ∀ txs t,
      loop (visit pkg c) v.tally txs = .next t ∨ loop (visit pkg c) v.tally txs = .leave t →
        ∃ signers, Counted pkg c t signers := by
  constructor
  · intro sigs h
    refine ⟨?_, quorum_of_returned hsum h⟩
    rw [(collectSignatures_eq h (by simp)).1, UInt32.toNat_add]
    exact Nat.mod_eq_of_lt (by change _ + 1 < _; omega)
  · intro v h txs t hl
    obtain ⟨signers, hpending⟩ := pending_of_polling hsum (collectSignatures_eq h (by simp)).2
    rcases hl with hl | hl
    · obtain ⟨signers', ht⟩ := hpending.loop_next hsum hl
      exact ⟨signers', ht.toCounted⟩
    · obtain ⟨signers', ht, -⟩ := hpending.loop_leave hsum hl
      exact ⟨signers', ht⟩

/-- Voter 1 signs twice and voter 2 once, in three windows with a failed query
between them. -/
theorem collected_quorum_twoVoters : ∃ sigs signers,
    collectSignatures .bytewise toEpochFive
      [pollAt 11 [signed 11 5 7 1], failingAt 12, pollAt 13 [signed 11 5 7 1, signed 12 5 7 1, garbled 13],
        pollAt 14 [signed 14 5 7 2]] = .leave (.ok sigs) ∧
      Quorum .bytewise toEpochFive sigs signers ∧ sigs.length = 2 := by
  have hret : collectSignatures .bytewise toEpochFive
      [pollAt 11 [signed 11 5 7 1], failingAt 12, pollAt 13 [signed 11 5 7 1, signed 12 5 7 1, garbled 13],
        pollAt 14 [signed 14 5 7 2]] = .leave (.ok [⟨28, 0, 0⟩, ⟨29, 0, 0⟩]) :=
    Flow.result?_eq_some.mp (by decide +kernel)
  obtain ⟨-, signers, hq⟩ := (collected_quorum .bytewise toEpochFive _ (by decide) (by decide +kernel)).1 _ hret
  exact ⟨_, signers, hret, hq, rfl⟩

end Count

/-! ## The message of an update -/

/-- The text of the error, as the update wraps it. -/
def CollectErr.text : CollectErr → PkgErr
  | .notConsecutivePolicy => "collecting signatures: not consecutive policy"
  | .context e => "collecting signatures: " ++ e
  | .deadlineExceeded => "collecting signatures: deadline exceeded"
  | .tooManyErrors last => "collecting signatures: too many errors: last error: " ++ last

def prepareSignatures (sigs : List Signature) : List Bytes := sigs.map serializeSig

/-- What `prepareUpdatePolicyMessage` makes of a collection; `encode` recovers
the public keys of the new policy's voters and encodes the request. -/
def collectedMessage (encode : List Bytes → Except PkgErr Bytes) :
    Except CollectErr (List Signature) → Except PkgErr Bytes
  | .error e => .error e.text
  | .ok sigs => encode (prepareSignatures sigs)

theorem quorum_of_prepareUpdatePolicyMessage {Value PublicKey : Type} {pkg : SignaturePkg Value PublicKey}
    {c : Collection} {polls : List Poll} {r : Except CollectErr (List Signature)}
    {encode : List Bytes → Except PkgErr Bytes} {msg : Bytes} (hsum : c.activePolicy.weightSum ≤ 65535)
    (h : collectSignatures pkg c polls = .leave r)
    (hm : prepareUpdatePolicyMessage (collectedMessage encode r) c.newPolicy c.activePolicy = .ok msg) :
    ∃ sigs signers, Quorum pkg c sigs signers ∧ encode (prepareSignatures sigs) = .ok msg := by
  unfold prepareUpdatePolicyMessage at hm
  split at hm
  next => cases hm
  split at hm
  next => cases hm
  next msg' hmsg =>
  cases hm
  cases r with
  | error e => cases hmsg
  | ok sigs =>
    obtain ⟨signers, hq⟩ := quorum_of_returned hsum h
    exact ⟨sigs, signers, hq, hmsg⟩

end TeeProxy.Policy
