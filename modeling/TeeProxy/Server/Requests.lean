/-
What the handlers make of a request body (`instructionH`, `directH` and
`validateDirect` of `internal/server/external.go`, `ServeInstruction`, and
`resultH` of `internal/server/internal.go`), and what the wallet sync makes of
the proofs in a result.

A handler decodes JSON into a pointer variable and tests the error. The value
`null` decodes without one and leaves the pointer nil, and the first field
the handler reads panics. The elements of a JSON array decode the same way.
-/
import TeeProxy.Lib.GoPanic
import TeeProxy.Queue.ActionQueues
import TeeProxy.Voting.Box
import TeeProxy.Wallets.Races

namespace TeeProxy.Server

open GoPanic (Fault returns deref)

/-! ## JSON -/

/-- White space between JSON values. -/
def jsonSpace (b : UInt8) : Bool := b = 0x20 ∨ b = 0x09 ∨ b = 0x0a ∨ b = 0x0d

/-- The first JSON value of a stream is `null`: the decoder stops after it,
whatever follows. -/
def startsWithNull (body : Bytes) : Bool := [0x6e, 0x75, 0x6c, 0x6c].isPrefixOf (body.dropWhile jsonSpace)

/-- `json.Decoder.Decode` into a pointer variable: it is nil after `null`, and
only then. -/
structure Decoder (α : Type) where
  decode : Bytes → Except PkgErr (Option α)
  decode_nil_iff : ∀ body, decode body = .ok none ↔ startsWithNull body = true

/-! ## The handlers -/

/-- `cinstruction.Instruction`. -/
structure Instruction where
  data : Data
  signature : Bytes

/-- `types.DirectInstruction`. -/
structure DirectInstruction where
  opType : Hash
  opCommand : Hash
  message : Bytes

/-- The errors of the handlers. -/
inductive Err
  | invalidBody
  | wrongTeeID
  | invalidOP
  | invalidSignature
  | vote (e : Voting.VoteErr)
  | unauthorized
  | systemDirect
  | enqueueFailed
  | other (e : PkgErr)
  deriving DecidableEq, Repr

/-- The external server and its instruction service, while one request is
served: its settings and what it calls. -/
structure External where
  teeID : Address
  apiKeyOptional : Bool
  apiKey : Bytes
  instructions : Decoder Instruction
  directs : Decoder DirectInstruction
  isValidPair : Hash → Hash → Bool
  isSystem : Hash → Bool
  recoverSigner : Instruction → Except PkgErr Address
  addVote : Data → Address → Bytes → Except Voting.VoteErr Voting.Receipt
  sign : Voting.Receipt → Except PkgErr Bytes
  encodeReceipt : Voting.Receipt → Bytes → Except PkgErr Bytes
  randomHash : Except PkgErr Hash
  marshal : Option DirectInstruction → Except PkgErr Bytes
  enqueue : Action → Except PkgErr Unit
  encodeAction : Action → Except PkgErr Bytes

section Handlers

variable (e : External)

def serveInstruction (i : Option Instruction) : Except (Fault Err) Voting.Receipt := do
  let i ← deref i
  if i.data.teeID ≠ e.teeID then throw (.err .wrongTeeID)
  if !e.isValidPair i.data.opType i.data.opCommand then throw (.err .invalidOP)
  let signer ← returns ((e.recoverSigner i).mapError fun _ => .invalidSignature)
  returns ((e.addVote i.data signer i.signature).mapError .vote)

/-- The answer is the signed receipt. -/
def instructionH (body : Bytes) : Except (Fault Err) Bytes := do
  let i ← returns ((e.instructions.decode body).mapError fun _ => .invalidBody)
  let receipt ← serveInstruction e i
  let signature ← returns ((e.sign receipt).mapError .other)
  returns ((e.encodeReceipt receipt signature).mapError .other)

def verifyAPIKey (key : Bytes) : Except Err Unit := if key ≠ e.apiKey then .error .unauthorized else .ok ()

/-- `validateDirect`: clients post no system operation. -/
def validateDirect (i : Option DirectInstruction) : Except (Fault Err) Unit := do
  let i ← deref i
  if e.isSystem i.opType then throw (.err .systemDirect)
  return ()

/-- `directH` once the API key has been looked at. The answer is the action. -/
def acceptDirect (body : Bytes) : Except (Fault Err) Bytes := do
  let i ← returns ((e.directs.decode body).mapError fun _ => .invalidBody)
  validateDirect e i
  let a ← returns ((Queue.directInstructionToAction e.randomHash (e.marshal i)).mapError fun _ => .invalidBody)
  returns ((e.enqueue a).mapError fun _ => .enqueueFailed)
  returns ((e.encodeAction a).mapError .other)

/-- `key` is the request's API key. -/
def directH (key body : Bytes) : Except (Fault Err) Bytes := do
  returns (if !e.apiKeyOptional then verifyAPIKey e key else .ok ())
  acceptDirect e body

/-- `Internal.resultH`, up to the response it hands to `storeResult`: it logs
the response's ID first. -/
def resultH (responses : Decoder ActionResponse) (body : Bytes) : Except (Fault Err) ActionResponse := do
  let response ← returns ((responses.decode body).mapError fun _ => .invalidBody)
  deref response

end Handlers

/-! ## Where they panic -/

section Panics

variable {e : External}

theorem decode_nil_iff {α : Type} (d : Decoder α) {body : Bytes} {f : PkgErr → Err} :
    returns ((d.decode body).mapError f) = .ok none ↔ startsWithNull body = true := by
  rw [GoPanic.returns_ok_iff, Except.mapError_ok_iff, d.decode_nil_iff]

/-- A handler that decodes a pointer panics on `null` if what comes after the
decoding panics on a nil pointer, and only on one. -/
theorem decoded_panicked_iff {α β : Type} (d : Decoder α) {body : Bytes} {f : PkgErr → Err}
    {rest : Option α → Except (Fault Err) β} (hrest : ∀ i, rest i = .error .panicked ↔ i = none) :
    (returns ((d.decode body).mapError f) >>= rest) = .error .panicked ↔ startsWithNull body = true := by
  simp only [Except.bind_error_iff, GoPanic.returns_ne_panicked, false_or, hrest, exists_eq_right]
  exact decode_nil_iff d

theorem serveInstruction_panicked_iff {i : Option Instruction} :
    serveInstruction e i = .error .panicked ↔ i = none := by
  unfold serveInstruction
  simp only [Except.bind_error_iff, Except.ite_throw_error_iff, GoPanic.deref_panicked_iff,
    GoPanic.returns_ne_panicked]
  simp

theorem instructionH_panicked_iff {body : Bytes} :
    instructionH e body = .error .panicked ↔ startsWithNull body = true := by
  refine decoded_panicked_iff e.instructions fun i => ?_
  simp only [Except.bind_error_iff, serveInstruction_panicked_iff, GoPanic.returns_ne_panicked]
  simp

theorem validateDirect_panicked_iff {i : Option DirectInstruction} :
    validateDirect e i = .error .panicked ↔ i = none := by
  unfold validateDirect
  simp only [Except.bind_error_iff, Except.ite_throw_error_iff, GoPanic.deref_panicked_iff]
  simp [pure, Except.pure]

theorem resultH_panicked_iff {responses : Decoder ActionResponse} {body : Bytes} :
    resultH responses body = .error .panicked ↔ startsWithNull body = true :=
  decoded_panicked_iff responses fun _ => GoPanic.deref_panicked_iff

/-- The request gets past the API key. -/
def Authorized (e : External) (key : Bytes) : Prop := e.apiKeyOptional = true ∨ key = e.apiKey

theorem acceptDirect_panicked_iff {body : Bytes} :
    acceptDirect e body = .error .panicked ↔ startsWithNull body = true := by
  refine decoded_panicked_iff e.directs fun i => ?_
  simp only [Except.bind_error_iff, validateDirect_panicked_iff, GoPanic.returns_ne_panicked]
  simp

theorem directH_panicked_iff {key body : Bytes} :
    directH e key body = .error .panicked ↔ Authorized e key ∧ startsWithNull body = true := by
  have hkey : (if !e.apiKeyOptional then verifyAPIKey e key else .ok ()) = .ok () ↔ Authorized e key := by
    unfold verifyAPIKey Authorized
    cases e.apiKeyOptional <;> simp
  unfold directH
  simp only [Except.bind_error_iff, GoPanic.returns_ne_panicked, false_or, GoPanic.returns_ok_iff, hkey,
    acceptDirect_panicked_iff, exists_const]

/-! ## The proofs of a sync -/

variable {op : OpPkg} {pkg : Wallets.WalletPkg} {c : Wallets.Cache}

/-- A batch of the wallet sync, from the node's result: what is written, and
how it ends. -/
def applyBatch (op : OpPkg) (pkg : Wallets.WalletPkg) (c : Wallets.Cache) (r : ActionResult) :
    Wallets.Cache × Except Wallets.Err Unit :=
  match Wallets.parseKeyProofResult op pkg r with
  | .error e => (c, .error e)
  | .ok proofs => c.writeBatch pkg proofs

/-- The list has a nil element, and every element before it is a proof that
parses. -/
inductive NilReached (pkg : Wallets.WalletPkg) : List (Option Wallets.SignedProof) → Prop
  | here {proofs} : NilReached pkg (none :: proofs)
  | after {proof proofs info} : Wallets.parseKeyExistenceProof pkg proof = .ok info → NilReached pkg proofs →
      NilReached pkg (some proof :: proofs)

theorem parseKeyExistenceProof_ne_nilProof {proof : Wallets.SignedProof} :
    Wallets.parseKeyExistenceProof pkg proof ≠ .error .nilProof := by
  unfold Wallets.parseKeyExistenceProof
  rw [ne_eq, Except.mapError_error_iff]
  rintro ⟨e, -, he⟩
  cases he

/-- The loop stops at the first proof that does not parse, and panics at a nil
one before it. -/
theorem writeBatch_nilProof_iff {proofs : List (Option Wallets.SignedProof)} :
    (c.writeBatch pkg proofs).2 = .error .nilProof ↔ NilReached pkg proofs := by
  induction proofs generalizing c with
  | nil =>
    refine iff_of_false (fun h => (by cases h)) fun h => ?_
    cases h
  | cons p proofs ih =>
    cases p with
    | none => exact iff_of_true rfl .here
    | some proof =>
      unfold Wallets.Cache.writeBatch
      split
      next e he =>
        refine iff_of_false (fun h => ?_) fun h => ?_
        · cases h
          exact parseKeyExistenceProof_ne_nilProof he
        · cases h with
          | after hok => rw [he] at hok; cases hok
      next info hok =>
        rw [ih]
        refine ⟨fun h => .after hok h, fun h => ?_⟩
        cases h with
        | after _ hrest => exact hrest

/-- A result of the operation and status the parser asks for. -/
structure IsKeyProof (op : OpPkg) (r : ActionResult) : Prop where
  status : r.status = 1
  opType : r.opType = op.typeHash .get
  opCommand : r.opCommand = op.commandHash .keyProof

theorem applyBatch_nilProof_iff {r : ActionResult} (hr : IsKeyProof op r) :
    (applyBatch op pkg c r).2 = .error .nilProof ↔
      ∃ proofs, pkg.unmarshalProofs r.data = .ok proofs ∧ NilReached pkg proofs := by
  unfold applyBatch Wallets.parseKeyProofResult
  simp only [hr.status, hr.opType, hr.opCommand, ne_eq, not_true_eq_false, if_false]
  cases pkg.unmarshalProofs r.data with
  | error e => simp [Except.mapError]
  | ok proofs => simp [Except.mapError, writeBatch_nilProof_iff]

/-- **Where JSON is read through nil.** A handler reads no nil pointer exactly
if the first JSON value of the body is not `null`, or the request does not get
past the API key; and a batch of proofs reads none exactly if no element is
`null` with only proofs that parse before it. -/
theorem no_nil_read_iff {responses : Decoder ActionResponse} {key body : Bytes} {r : ActionResult}
    (hr : IsKeyProof op r) :
    (instructionH e body ≠ .error .panicked ↔ startsWithNull body = false) ∧
    (directH e key body ≠ .error .panicked ↔ (Authorized e key → startsWithNull body = false)) ∧
    (resultH responses body ≠ .error .panicked ↔ startsWithNull body = false) ∧
    ((applyBatch op pkg c r).2 ≠ .error .nilProof ↔
      ∀ proofs, pkg.unmarshalProofs r.data = .ok proofs → ¬ NilReached pkg proofs) := by
  refine ⟨?_, ?_, ?_, ?_⟩
  · rw [ne_eq, instructionH_panicked_iff, Bool.not_eq_true]
  · rw [ne_eq, directH_panicked_iff, not_and, Bool.not_eq_true]
  · rw [ne_eq, resultH_panicked_iff, Bool.not_eq_true]
  · rw [ne_eq, applyBatch_nilProof_iff hr, not_exists]
    simp only [not_and]

end Panics

/-- Every body but `null` is one value. -/
def Decoder.const {α : Type} (a : α) : Decoder α where
  decode body := .ok (if startsWithNull body then none else some a)
  decode_nil_iff body := by
    cases startsWithNull body <;> simp

/-- A server for the machine 0 that needs no API key. -/
def plainExternal : External where
  teeID := 0
  apiKeyOptional := true
  apiKey := []
  instructions := .const ⟨⟨⟨1, 0, 100, 7, 0, 0, [], 0, [], []⟩, []⟩, []⟩
  directs := .const ⟨0, 0, []⟩
  isValidPair _ _ := true
  isSystem _ := false
  recoverSigner _ := .ok 1
  addVote _ _ signature := .ok ⟨0, 0, signature, 0, 0, 0⟩
  sign _ := .ok []
  encodeReceipt _ signature := .ok signature
  randomHash := .ok 0
  marshal _ := .ok []
  enqueue _ := .ok ()
  encodeAction a := .ok a.data.message

/-- A decoder with one answer. -/
def plainResponses : Decoder ActionResponse := .const ⟨⟨0, .submit, 1, 0, 0, []⟩, []⟩

/-- Proofs are JSON arrays, of which only two are known: `[]` and `[null]`. -/
def arrayProofs : Wallets.WalletPkg :=
  { Wallets.WalletPkg.bytes with
    unmarshalProofs := fun data =>
      if data = [0x5b, 0x5d] then .ok []
      else if data = [0x5b, 0x6e, 0x75, 0x6c, 0x6c, 0x5d] then .ok [none]
      else .error "json" }

theorem no_nil_read_object :
    instructionH plainExternal [0x7b, 0x7d] ≠ .error .panicked ∧
      directH plainExternal [] [0x7b, 0x7d] ≠ .error .panicked ∧
      resultH plainResponses [0x7b, 0x7d] ≠ .error .panicked ∧
      (applyBatch .numbered arrayProofs .empty (Wallets.plainResult .get .keyProof [0x5b, 0x5d])).2 ≠
        .error .nilProof := by
  have hr : IsKeyProof .numbered (Wallets.plainResult .get .keyProof [0x5b, 0x5d]) := ⟨rfl, rfl, rfl⟩
  have hnull : startsWithNull [0x7b, 0x7d] = false := by decide
  obtain ⟨hi, hd, hres, hbatch⟩ := @no_nil_read_iff plainExternal .numbered arrayProofs .empty plainResponses []
    [0x7b, 0x7d] _ hr
  refine ⟨hi.mpr hnull, hd.mpr fun _ => hnull, hres.mpr hnull, hbatch.mpr fun proofs hp hreached => ?_⟩
  cases hp
  cases hreached

/-- The body `null`, and `[null]` for proofs. -/
theorem null_read :
    instructionH plainExternal [0x6e, 0x75, 0x6c, 0x6c] = .error .panicked ∧
      directH plainExternal [] [0x6e, 0x75, 0x6c, 0x6c] = .error .panicked ∧
      resultH plainResponses [0x6e, 0x75, 0x6c, 0x6c] = .error .panicked ∧
      (applyBatch .numbered arrayProofs .empty
        (Wallets.plainResult .get .keyProof [0x5b, 0x6e, 0x75, 0x6c, 0x6c, 0x5d])).2 = .error .nilProof := by
  have hnull : startsWithNull [0x6e, 0x75, 0x6c, 0x6c] = true := by decide
  exact ⟨instructionH_panicked_iff.mpr hnull, directH_panicked_iff.mpr ⟨.inl rfl, hnull⟩,
    resultH_panicked_iff.mpr hnull, (applyBatch_nilProof_iff ⟨rfl, rfl, rfl⟩).mpr ⟨[none], rfl, .here⟩⟩

end TeeProxy.Server
