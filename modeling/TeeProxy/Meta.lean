/-
Instruction metadata (`pkg/instruction/meta`): which cosigners and which
thresholds a box gets. `Meta` is the interface the voting code calls;
`meta` is the implementation, over the wallet cache of the moment.
-/
import TeeProxy.Lib.Fallible
import TeeProxy.Wallets.Cache

namespace TeeProxy

/-- The errors of the metadata checks. -/
inductive MetaErr
  | duplicateCosigners
  | cosignerMismatch
  | cosignerThresholdMismatch
  | malformedPayload (e : PkgErr)
  | invalidBackupMetadata (e : PkgErr)
  | wallet (e : Wallets.Err)
  | fdcThresholdTooLow
  | fdcThresholdBelowHalf
  | fdcThresholdTooHigh
  | pkg (e : PkgErr)
  deriving DecidableEq, Repr

/-- The interface `meta.Meta`. A threshold of `-1` BIPS is no threshold. -/
structure Meta where
  cosigners : DataFixed → Except MetaErr (GoMap Address Bool × UInt64)
  checkConsistency : Data → Address → Except MetaErr Unit
  thresholdBIPS : DataFixed → Except MetaErr Int

/-- tee-node's `backup.WalletBackupMetaData`, as far as the proxy reads it. -/
structure WalletBackupMetaData where
  adminsPublicKeys : List Bytes
  adminsThreshold : UInt64
  cosigners : List Address
  cosignersThreshold : UInt64

/-- What `meta` calls of tee-node. An FDC request is read for its header's
threshold only; the rest of it goes back into `HashMessage`. -/
structure NodePkg where
  FdcRequest : Type
  hasDuplicateAddresses : List Address → Bool
  parsePaymentInstruction : DataFixed → Except PkgErr Hash
  parseVRFInstruction : DataFixed → Except PkgErr Wallets.IDPair
  unmarshalBackupMetaData : Bytes → Except PkgErr WalletBackupMetaData
  validateWalletMemberCounts : Nat → Nat → Except PkgErr Unit
  pubKeysToAddresses : List Bytes → Except PkgErr (List Address)
  decodeRequest : Bytes → Except PkgErr FdcRequest
  requestThresholdBIPS : FdcRequest → UInt16
  hashMessage : UInt64 → FdcRequest → Bytes → List Address → UInt64 → UInt64 → Except PkgErr Hash
  chainBoundRelayPrefixedHash : UInt64 → Hash → Hash
  verifySignature : Hash → Bytes → Address → Except PkgErr Unit
  hasDuplicateAddresses_iff : ∀ l, hasDuplicateAddresses l = true ↔ ¬ l.Nodup

/-- A node package that parses nothing and verifies everything. -/
def NodePkg.blank : NodePkg where
  FdcRequest := Unit
  hasDuplicateAddresses l := !decide l.Nodup
  parsePaymentInstruction _ := .error "payment"
  parseVRFInstruction _ := .error "vrf"
  unmarshalBackupMetaData _ := .ok ⟨[], 0, [], 0⟩
  validateWalletMemberCounts _ _ := .ok ()
  pubKeysToAddresses _ := .ok []
  decodeRequest _ := .error "request"
  requestThresholdBIPS _ := 0
  hashMessage _ _ _ _ _ _ := .ok 0
  chainBoundRelayPrefixedHash _ h := h
  verifySignature _ _ _ := .ok ()
  hasDuplicateAddresses_iff l := by simp

namespace Meta

/-- `maxBIPS`: the whole in basis points. -/
def maxBIPS : Nat := 10000

/-- `fdcMinimumThresholdBIPS`. -/
def fdcMinimumThresholdBIPS : UInt16 := 4000

/-- The set of a list of addresses, as a map to `true`. -/
def toSet (l : List Address) : GoMap Address Bool := l.foldl (fun m a => m.set a true) ∅

/-- `checkCosigner`: as many cosigners as expected, each of them expected, and
the expected threshold. -/
def checkCosigner (cosigners : List Address) (expectedCosigners : GoMap Address Bool)
    (threshold expectedThreshold : UInt64) : Except MetaErr Unit :=
  if cosigners.length ≠ expectedCosigners.size then .error .cosignerMismatch
  else if cosigners.any fun cs => expectedCosigners.get? cs ≠ some true then .error .cosignerMismatch
  else if threshold ≠ expectedThreshold then .error .cosignerThresholdMismatch
  else .ok ()

section Implementation

variable (op : OpPkg) (node : NodePkg) (ws : Wallets.Cache) (chainID : UInt64)

/-- `keyDataProviderRestoreAdmins`: the admins of the backup vote as cosigners. -/
def keyDataProviderRestoreAdmins (data : DataFixed) : Except MetaErr (GoMap Address Bool × UInt64) := do
  let backup ← (node.unmarshalBackupMetaData data.additionalFixedMessage).mapError .malformedPayload
  (node.validateWalletMemberCounts backup.adminsPublicKeys.length backup.cosigners.length).mapError
    .invalidBackupMetadata
  let adminAddresses ← (node.pubKeysToAddresses backup.adminsPublicKeys).mapError .malformedPayload
  if node.hasDuplicateAddresses adminAddresses then
    throw (.invalidBackupMetadata "duplicate admin addresses")
  if node.hasDuplicateAddresses backup.cosigners then
    throw (.invalidBackupMetadata "duplicate cosigner addresses")
  if backup.cosignersThreshold > .ofNat backup.cosigners.length then
    throw (.invalidBackupMetadata "cosigners threshold exceeds cosigner set")
  return (toSet adminAddresses, backup.adminsThreshold)

/-- `walletCosigners`: those of the cached wallet. -/
def walletCosigners (walletID : Hash) : Except MetaErr (GoMap Address Bool × UInt64) := do
  let wi ← (ws.walletInfo walletID).mapError .wallet
  return (toSet wi.configConstants.cosigners, wi.configConstants.cosignersThreshold)

def xrpCosigners (data : DataFixed) : Except MetaErr (GoMap Address Bool × UInt64) := do
  let walletID ← (node.parsePaymentInstruction data).mapError .malformedPayload
  walletCosigners ws walletID

def vrfCosigners (data : DataFixed) : Except MetaErr (GoMap Address Bool × UInt64) := do
  let originalMessage ← (node.parseVRFInstruction data).mapError .malformedPayload
  walletCosigners ws originalMessage.walletID

/-- A resolved roster has to be the one the client declared. -/
def declared (data : DataFixed) (resolved : Except MetaErr (GoMap Address Bool × UInt64)) :
    Except MetaErr (GoMap Address Bool × UInt64) := do
  let (cosigners, threshold) ← resolved
  checkCosigner data.cosigners cosigners data.cosignersThreshold threshold
  return (cosigners, threshold)

/-- `Cosigners`, by the command of the instruction. -/
def cosignersOf (data : DataFixed) : Except MetaErr (GoMap Address Bool × UInt64) :=
  if node.hasDuplicateAddresses data.cosigners then .error .duplicateCosigners
  else if data.opCommand = op.commandHash .pay ∨ data.opCommand = op.commandHash .reissue then
    declared data (xrpCosigners node ws data)
  else if data.opCommand = op.commandHash .vrf then declared data (vrfCosigners node ws data)
  else if data.opCommand = op.commandHash .keyDataProviderRestore then
    declared data (keyDataProviderRestoreAdmins node data)
  else .ok (toSet data.cosigners, data.cosignersThreshold)

/-- `fdcCheckConsistency`: the signer has signed the request for the chain. -/
def fdcCheckConsistency (data : Data) (signer : Address) : Except MetaErr Unit := do
  let fdcReq ← (node.decodeRequest data.originalMessage).mapError .pkg
  let h ← (node.hashMessage chainID fdcReq data.additionalFixedMessage data.cosigners data.cosignersThreshold
    data.timestamp).mapError .pkg
  (node.verifySignature (node.chainBoundRelayPrefixedHash chainID h) data.additionalVariableMessage signer).mapError
    .pkg

def checkFDCThreshold (thresholdBIPS : UInt16) (cosignersThreshold : UInt64) (cosignerCount : Nat) :
    Except MetaErr Unit :=
  if thresholdBIPS < fdcMinimumThresholdBIPS then .error .fdcThresholdTooLow
  else if thresholdBIPS < .ofNat (maxBIPS / 2) ∧ cosignersThreshold * 2 ≤ .ofNat cosignerCount then
    .error .fdcThresholdBelowHalf
  else if thresholdBIPS ≥ .ofNat maxBIPS then .error .fdcThresholdTooHigh
  else .ok ()

/-- `ThresholdBIPS`: `-1` stands for the threshold of the policy. -/
def thresholdBIPSOf (data : DataFixed) : Except MetaErr Int :=
  if data.opType = op.typeHash .fdc2 ∧ data.opCommand = op.commandHash .prove then do
    let fdcReq ← (node.decodeRequest data.originalMessage).mapError .pkg
    let tBIPS := node.requestThresholdBIPS fdcReq
    if tBIPS = 0 then return -1
    checkFDCThreshold tBIPS data.cosignersThreshold data.cosigners.length
    return tBIPS.toNat
  else .ok (-1)

/-- `meta.New`, at one state of the wallet cache. -/
def new : Meta where
  cosigners := cosignersOf op node ws
  checkConsistency data signer :=
    if data.opCommand = op.commandHash .prove then fdcCheckConsistency node chainID data signer else .ok ()
  thresholdBIPS := thresholdBIPSOf op node

end Implementation

/-! ## The size of a roster -/

theorem size_toSet_le (l : List Address) : (toSet l).size ≤ l.length := by
  suffices ∀ m : GoMap Address Bool, (l.foldl (fun m a => m.set a true) m).size ≤ m.size + l.length by
    simpa [toSet] using this ∅
  induction l with
  | nil => intro m; simp
  | cons a l ih =>
    intro m
    have h := ih (m.set a true)
    have := m.size_set_le a true
    simp only [List.foldl_cons, List.length_cons]
    omega

theorem checkCosigner_size {cosigners : List Address} {expected : GoMap Address Bool} {t t' : UInt64}
    (h : checkCosigner cosigners expected t t' = .ok ()) : expected.size = cosigners.length := by
  unfold checkCosigner at h
  split at h
  · cases h
  · next hl => exact (not_not.mp hl).symm

theorem declared_size {data : DataFixed} {resolved} {r : GoMap Address Bool × UInt64}
    (h : declared data resolved = .ok r) : r.1.size = data.cosigners.length := by
  simp only [declared, Except.bind_ok_iff, Except.pure_ok_iff] at h
  obtain ⟨⟨cosigners, threshold⟩, -, u, hc, rfl⟩ := h
  exact checkCosigner_size hc

/-- A resolved roster is no larger than the list the client declared. -/
theorem cosignersOf_size {op : OpPkg} {node : NodePkg} {ws : Wallets.Cache} {data : DataFixed}
    {r : GoMap Address Bool × UInt64} (h : cosignersOf op node ws data = .ok r) :
    r.1.size ≤ data.cosigners.length := by
  unfold cosignersOf at h
  split at h
  · cases h
  split at h
  · exact (declared_size h).le
  split at h
  · exact (declared_size h).le
  split at h
  · exact (declared_size h).le
  · simp only [Except.ok.injEq] at h
    subst h
    exact size_toSet_le _

end Meta

end TeeProxy
