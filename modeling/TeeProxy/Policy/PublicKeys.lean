/-
The public keys a policy message carries (`pkg/policy/pubkeys.go`, and
`prepareInitializePolicyActionMessage` and `prepareUpdatePolicyMessage` of
`pkg/policy/policy.go`).

The node gets each new policy with the keys of its voters. The proxy recovers
them from the registrations: a voter's key is what recovers from the signature
in the one `VoterRegistered` event of the voter for the epoch, and it has to
have the voter's address. On Coston, before a breaking epoch, the events are
those of an older registry and the signed message leaves the chain out.

`policy_keys_exact`: the message of an initialization and that of an update
come to the same keys, one for each voter in the policy's order, and exist
exactly if every voter is registered.
-/
import TeeProxy.Policy.Restart
import TeeProxy.Policy.Signatures

namespace TeeProxy.Policy

open Indexer (Log Topics LogsFullParams Database)
open Scan (Flow)

/-- The epoch from which Coston's registry has the new message. -/
def costonRegistryMessageBreakingEpoch : UInt32 := 5451

/-- The registry of Coston before that epoch. -/
def costonOldVoterRegistryAddress : Address := 0xB4B93a3A3ADa93a574E6efeb5f295bf882934cB6

def costonChainID : Int := 16

/-- `convert.Uint32ToHash`. -/
def uint32ToHash (n : UInt32) : Hash := .ofNat 256 n.toNat

def addressToHash (a : Address) : Hash := a.setWidth 256

/-- What is read of `registry.RegistryVoterRegistered`. -/
structure VoterRegistered where
  voter : Address
  signature : Signature
  deriving DecidableEq, Repr

/-- tee-node's `types.PublicKey`. -/
structure KeyPoint where
  x : Hash
  y : Hash
  deriving DecidableEq, Repr

/-- tee-node's `types.InitializePolicyRequest`. -/
structure InitializePolicyRequest where
  initialPolicyBytes : Bytes
  publicKeys : List KeyPoint
  deriving DecidableEq, Repr

/-- tee-node's `types.MultiSignedPolicy`. -/
structure MultiSignedPolicy where
  policyBytes : Bytes
  signatures : List Bytes
  deriving DecidableEq, Repr

/-- tee-node's `types.UpdatePolicyRequest`. -/
structure UpdatePolicyRequest where
  newPolicy : MultiSignedPolicy
  publicKeys : List KeyPoint
  deriving DecidableEq, Repr

/-- The errors of `recoverPubKey`. -/
inductive PubKeyErr
  | fetching (e : PkgErr)
  | invalidLogCount
  | parsing (e : PkgErr)
  | packing (e : PkgErr)
  | recovering (e : PkgErr)
  | wrongAddressRecovered
  deriving DecidableEq, Repr

/-- The errors of a message after the signatures are collected. -/
inductive MessageErr
  | recoveringPubKey (voter : Address) (e : PubKeyErr)
  | marshaling (e : PkgErr)
  deriving DecidableEq, Repr

/-- What the messages need besides: the registry's event and the message a
registration signs, the bytes of a policy, and the JSON form of the requests.
`text` is the text of an error. -/
structure RegistryPkg (Value PublicKey : Type) extends SignaturePkg Value PublicKey where
  voterRegisteredEventSel : Hash
  parseVoterRegisteredEvent : Log → Except PkgErr VoterRegistered
  packMsg : Int → UInt32 → Address → Except PkgErr Bytes
  packMsgLegacy : UInt32 → Address → Except PkgErr Bytes
  keccak256 : Bytes → Hash
  pubKeyToStruct : PublicKey → KeyPoint
  rawBytes : SigningPolicy → Bytes
  marshalInitialize : InitializePolicyRequest → Except PkgErr Bytes
  marshalUpdate : UpdatePolicyRequest → Except PkgErr Bytes
  text : MessageErr → PkgErr

section Recover

variable {Value PublicKey : Type} (pkg : RegistryPkg Value PublicKey) (db : Database)

/-- `recoverPubKeyFromRegistration`: the message has the chain ID where one is
given, but for the old epochs of Coston. -/
def recoverPubKeyFromRegistration (identityAddress : Address) (rewardEpochID : UInt32) (signature : Signature)
    (chainID : Option Int) : Except PubKeyErr PublicKey := do
  let msg ← (match chainID with
    | none => pkg.packMsgLegacy rewardEpochID identityAddress
    | some chainID =>
      if chainID = costonChainID ∧ rewardEpochID < costonRegistryMessageBreakingEpoch then
        pkg.packMsgLegacy rewardEpochID identityAddress
      else pkg.packMsg chainID rewardEpochID identityAddress).mapError .packing
  (recoverSigner pkg.toSignaturePkg (pkg.keccak256 msg) signature).mapError .recovering

/-- `recoverPubKeyFromEvent`: the key recovered has the address in the policy. -/
def recoverPubKeyFromEvent (signingPolicyAddress : Address) (signingPolicyID : UInt32) (log : Log)
    (chainID : Option Int) : Except PubKeyErr PublicKey := do
  let event ← (pkg.parseVoterRegisteredEvent log).mapError .parsing
  let pub ← recoverPubKeyFromRegistration pkg event.voter signingPolicyID event.signature chainID
  if pkg.pubkeyToAddress pub ≠ signingPolicyAddress then throw .wrongAddressRecovered
  pure pub

/-- The query of `fetchVoterRegistered`. -/
def voterRegisteredParams (voterRegistryAddress : Address) (signingPolicyID : UInt32) (signingPolicyAddress : Address) :
    LogsFullParams :=
  ⟨voterRegistryAddress,
    ⟨pkg.voterRegisteredEventSel, 0, uint32ToHash signingPolicyID, addressToHash signingPolicyAddress⟩, -1⟩

def fetchVoterRegistered (voterRegistryAddress : Address) (signingPolicyID : UInt32) (signingPolicyAddress : Address) :
    Except PkgErr (List Log) :=
  db.fetchLogsFull (voterRegisteredParams pkg voterRegistryAddress signingPolicyID signingPolicyAddress)

/-- `recoverPubKey`: exactly one registration is expected. -/
def recoverPubKey (signingPolicyAddress : Address) (signingPolicyID : UInt32) (voterRegistryAddress : Address)
    (chainID : Option Int) : Except PubKeyErr PublicKey := do
  let vrLogs ← (fetchVoterRegistered pkg db voterRegistryAddress signingPolicyID signingPolicyAddress).mapError
    .fetching
  match vrLogs with
  | [log] => recoverPubKeyFromEvent pkg signingPolicyAddress signingPolicyID log chainID
  | _ => throw .invalidLogCount

/-- The loop of an initialization. The registry's address is a variable
outside the loop that the body sets. -/
def initializeKeys (p : SigningPolicy) (chainID : Int) : Address → List Address → Except MessageErr (List KeyPoint)
  | _, [] => pure []
  | voterRegistryAddress, address :: rest => do
    let voterRegistryAddress :=
      if chainID = costonChainID ∧ p.rewardEpochID < costonRegistryMessageBreakingEpoch then
        costonOldVoterRegistryAddress
      else voterRegistryAddress
    let pk ← (recoverPubKey pkg db address p.rewardEpochID voterRegistryAddress (some chainID)).mapError
      (.recoveringPubKey address)
    let keys ← initializeKeys p chainID voterRegistryAddress rest
    pure (pkg.pubKeyToStruct pk :: keys)

/-- The loop of an update, which chooses the registry anew for each voter. -/
def updateKeys (voterRegistryAddress : Address) (p : SigningPolicy) (chainID : Int) (addresses : List Address) :
    Except MessageErr (List KeyPoint) :=
  addresses.mapM fun address => do
    let vrAdd :=
      if chainID = costonChainID ∧ p.rewardEpochID < costonRegistryMessageBreakingEpoch then
        costonOldVoterRegistryAddress
      else voterRegistryAddress
    let pk ← (recoverPubKey pkg db address p.rewardEpochID vrAdd (some chainID)).mapError (.recoveringPubKey address)
    pure (pkg.pubKeyToStruct pk)

/-- `prepareInitializePolicyActionMessage`. -/
def prepareInitializePolicyActionMessage (voterRegistryAddress : Address) (p : SigningPolicy) (chainID : Int) :
    Except MessageErr Bytes := do
  let pubKeys ← initializeKeys pkg db p chainID voterRegistryAddress p.voters.voters
  (pkg.marshalInitialize ⟨pkg.rawBytes p, pubKeys⟩).mapError .marshaling

/-- `prepareUpdatePolicyMessage` after the signatures are collected. -/
def encodeUpdate (voterRegistryAddress : Address) (nextPolicy : SigningPolicy) (chainID : Int)
    (signatures : List Bytes) :
    Except MessageErr Bytes := do
  let pubKeys ← updateKeys pkg db voterRegistryAddress nextPolicy chainID nextPolicy.voters.voters
  (pkg.marshalUpdate ⟨⟨pkg.rawBytes nextPolicy, signatures⟩, pubKeys⟩).mapError .marshaling

end Recover

/-! ## One voter -/

section Voter

variable {Value PublicKey : Type} (pkg : RegistryPkg Value PublicKey) (db : Database) (voterRegistryAddress : Address)
  (chainID : Int) (p : SigningPolicy)

/-- The registry that has the registrations for a policy. -/
def registryOf : Address :=
  if chainID = costonChainID ∧ p.rewardEpochID < costonRegistryMessageBreakingEpoch then costonOldVoterRegistryAddress
  else voterRegistryAddress

/-- The message of a registration for a policy. -/
def registrationMessage (identity : Address) : Except PkgErr Bytes :=
  if chainID = costonChainID ∧ p.rewardEpochID < costonRegistryMessageBreakingEpoch then
    pkg.packMsgLegacy p.rewardEpochID identity
  else pkg.packMsg chainID p.rewardEpochID identity

/-- An event of a registration of a voter for a policy. -/
def isRegistration (a : Address) (log : Log) : Bool :=
  log.address = registryOf voterRegistryAddress chainID p ∧ log.topics.topic0 = pkg.voterRegisteredEventSel ∧
    log.topics.topic2 = uint32ToHash p.rewardEpochID ∧ log.topics.topic3 = addressToHash a

/-- A log that has the registration of a voter: the identity it names signed
the message of the registration with `key`, and the address is the voter's. -/
def Vouches (a : Address) (key : PublicKey) (log : Log) : Prop :=
  ∃ event msg, pkg.parseVoterRegisteredEvent log = .ok event ∧ registrationMessage pkg chainID p event.voter = .ok msg ∧
    recoverSigner pkg.toSignaturePkg (pkg.keccak256 msg) event.signature = .ok key ∧ pkg.pubkeyToAddress key = a

/-- **A registered voter**: the registry has one event of it, and the event
vouches for the key. -/
def Registered (a : Address) (key : PublicKey) : Prop :=
  ∃ log, db.logs.filter (isRegistration pkg voterRegistryAddress chainID p a) = [log] ∧ Vouches pkg chainID p a key log

variable {pkg db voterRegistryAddress chainID p}

theorem recoverPubKeyFromRegistration_some {identity : Address} {signature : Signature} {key : PublicKey} :
    recoverPubKeyFromRegistration pkg identity p.rewardEpochID signature (some chainID) = .ok key ↔
      ∃ msg, registrationMessage pkg chainID p identity = .ok msg ∧
        recoverSigner pkg.toSignaturePkg (pkg.keccak256 msg) signature = .ok key := by
  simp only [recoverPubKeyFromRegistration, Except.bind_ok_iff, Except.mapError_ok_iff, registrationMessage]

theorem recoverPubKeyFromEvent_iff {a : Address} {log : Log} {key : PublicKey} :
    recoverPubKeyFromEvent pkg a p.rewardEpochID log (some chainID) = .ok key ↔ Vouches pkg chainID p a key log := by
  simp only [recoverPubKeyFromEvent, Except.bind_ok_iff, Except.mapError_ok_iff, Except.ite_throw_ok_iff,
    Except.pure_ok_iff, recoverPubKeyFromRegistration_some, not_not, Vouches]
  constructor
  · rintro ⟨event, hevent, key', ⟨msg, hmsg, hkey⟩, haddr, rfl⟩
    exact ⟨event, msg, hevent, hmsg, hkey, haddr⟩
  · rintro ⟨event, msg, hevent, hmsg, hkey, haddr⟩
    exact ⟨event, hevent, key, ⟨msg, hmsg, hkey⟩, haddr, rfl⟩

theorem recoverPubKey_iff {a : Address} {registry : Address} {key : PublicKey} :
    recoverPubKey pkg db a p.rewardEpochID registry (some chainID) = .ok key ↔
      ∃ log, fetchVoterRegistered pkg db registry p.rewardEpochID a = .ok [log] ∧ Vouches pkg chainID p a key log := by
  simp only [recoverPubKey, Except.bind_ok_iff, Except.mapError_ok_iff]
  constructor
  · rintro ⟨logs, hlogs, h⟩
    split at h
    next log => exact ⟨log, hlogs, recoverPubKeyFromEvent_iff.mp h⟩
    next => cases h
  · rintro ⟨log, hlogs, hv⟩
    exact ⟨[log], hlogs, recoverPubKeyFromEvent_iff.mpr hv⟩

theorem uint32ToHash_ne_zero {n : UInt32} (h : n ≠ 0) : uint32ToHash n ≠ 0 :=
  Indexer.ofNat_ne_zero (fun hnat => h (UInt32.toNat_inj.mp hnat)) (Nat.lt_trans n.toNat_lt (by decide))

theorem addressToHash_ne_zero {a : Address} (h : a ≠ 0) : addressToHash a ≠ 0 := by
  intro hzero
  have hnat : (addressToHash a).toNat = 0 := congrArg BitVec.toNat hzero
  have hlt := a.isLt
  rw [addressToHash, BitVec.toNat_setWidth] at hnat
  have hnil : a.toNat = 0 := by omega
  exact h (BitVec.eq_of_toNat_eq hnil)

/-- Where the topics of the query are set, it selects the registrations. -/
theorem selects_voterRegisteredParams (hsel : pkg.voterRegisteredEventSel ≠ 0) (hid : p.rewardEpochID ≠ 0) {a : Address}
    (ha : a ≠ 0) : (voterRegisteredParams pkg (registryOf voterRegistryAddress chainID p) p.rewardEpochID a).selects =
      isRegistration pkg voterRegistryAddress chainID p a := by
  have hepoch := uint32ToHash_ne_zero hid
  have haddr := addressToHash_ne_zero ha
  funext log
  rw [Bool.eq_iff_iff, Indexer.selects_iff]
  simp only [voterRegisteredParams, isRegistration, Indexer.admits_iff hsel, Indexer.admits_iff hepoch,
    Indexer.admits_iff haddr, decide_eq_true_eq]
  simp [Indexer.admits]

/-- The query has one row exactly if there is one registration. -/
theorem fetchVoterRegistered_one (hsel : pkg.voterRegisteredEventSel ≠ 0)
    (hdb : ∀ params, ∃ rows, db.fetchLogsFull params = .ok rows) (hid : p.rewardEpochID ≠ 0) {a : Address} (ha : a ≠ 0)
    {log : Log} :
    fetchVoterRegistered pkg db (registryOf voterRegistryAddress chainID p) p.rewardEpochID a = .ok [log] ↔
      db.logs.filter (isRegistration pkg voterRegistryAddress chainID p a) = [log] := by
  obtain ⟨rows, hrows⟩ :=
    hdb (voterRegisteredParams pkg (registryOf voterRegistryAddress chainID p) p.rewardEpochID a)
  obtain ⟨all, hperm, -, hlimit⟩ := db.answers hrows
  rw [selects_voterRegisteredParams hsel hid ha] at hperm
  -- There is no limit on the number of rows.
  have hall : rows = all := hlimit.trans (if_pos (show (-1 : Int) < 0 by decide))
  rw [fetchVoterRegistered, hrows, hall]
  constructor
  · rintro ⟨⟩
    exact (List.singleton_perm.mp hperm).symm
  · intro hone
    rw [hone] at hperm
    rw [List.perm_singleton.mp hperm]

theorem recoverPubKey_registered (hsel : pkg.voterRegisteredEventSel ≠ 0)
    (hdb : ∀ params, ∃ rows, db.fetchLogsFull params = .ok rows) (hid : p.rewardEpochID ≠ 0) {a : Address} (ha : a ≠ 0)
    {key : PublicKey} :
    recoverPubKey pkg db a p.rewardEpochID (registryOf voterRegistryAddress chainID p) (some chainID) = .ok key ↔
      Registered pkg db voterRegistryAddress chainID p a key := by
  simp only [recoverPubKey_iff, fetchVoterRegistered_one hsel hdb hid ha, Registered]

/-! ## All voters -/

/-- Setting the registry's address in the loop is choosing it for each
voter. -/
theorem initializeKeys_eq : ∀ (addresses : List Address) (registry : Address),
    initializeKeys pkg db p chainID registry addresses = updateKeys pkg db registry p chainID addresses
  | [], _ => rfl
  | a :: rest, registry => by
    rw [initializeKeys, updateKeys, List.mapM_cons]
    simp only [initializeKeys_eq rest]
    by_cases hold : chainID = costonChainID ∧ p.rewardEpochID < costonRegistryMessageBreakingEpoch
    · simp only [if_pos hold, updateKeys, bind_assoc, pure_bind]
    · simp only [if_neg hold, updateKeys, bind_assoc, pure_bind]

theorem forall₂_exists_map {α β γ : Type} {R : α → β → Prop} {f : β → γ} {as : List α} {cs : List γ} :
    List.Forall₂ (fun a c => ∃ b, R a b ∧ f b = c) as cs ↔ ∃ bs, List.Forall₂ R as bs ∧ bs.map f = cs := by
  constructor
  · intro h
    induction h with
    | nil => exact ⟨[], .nil, rfl⟩
    | cons hhead _ ih =>
      obtain ⟨b, hb, rfl⟩ := hhead
      obtain ⟨bs, hbs, rfl⟩ := ih
      exact ⟨b :: bs, .cons hb hbs, rfl⟩
  · rintro ⟨bs, hbs, rfl⟩
    rw [List.forall₂_map_right_iff]
    exact hbs.imp fun a b hb => ⟨b, hb, rfl⟩

theorem updateKeys_ok_iff (hsel : pkg.voterRegisteredEventSel ≠ 0)
    (hdb : ∀ params, ∃ rows, db.fetchLogsFull params = .ok rows) (hid : p.rewardEpochID ≠ 0) {addresses : List Address}
    (hvoters : 0 ∉ addresses) {points : List KeyPoint} :
    updateKeys pkg db voterRegistryAddress p chainID addresses = .ok points ↔
      ∃ keys, List.Forall₂ (Registered pkg db voterRegistryAddress chainID p) addresses keys ∧
        keys.map pkg.pubKeyToStruct = points := by
  rw [updateKeys, Except.mapM_ok_iff, ← forall₂_exists_map]
  simp only [Except.bind_ok_iff, Except.mapError_ok_iff, Except.pure_ok_iff]
  have hvoter {a : Address} (ha : a ∈ addresses) (key : PublicKey) :=
    @recoverPubKey_registered _ _ pkg db voterRegistryAddress chainID p hsel hdb hid a (fun h => hvoters (h ▸ ha)) key
  clear hvoters
  induction addresses generalizing points with
  | nil => simp
  | cons a rest ih =>
    cases points with
    | nil => simp
    | cons point points =>
      rw [List.forall₂_cons, List.forall₂_cons]
      refine and_congr (exists_congr fun key => and_congr_left' ?_) (ih fun ha => hvoter (List.mem_cons_of_mem a ha))
      exact hvoter List.mem_cons_self key

theorem address_of_registered {addresses : List Address} {keys : List PublicKey}
    (h : List.Forall₂ (Registered pkg db voterRegistryAddress chainID p) addresses keys) :
    keys.map pkg.pubkeyToAddress = addresses := by
  induction h with
  | nil => rfl
  | cons hhead _ ih =>
    obtain ⟨log, -, event, msg, -, -, -, haddr⟩ := hhead
    rw [List.map_cons, haddr, ih]

end Voter

/-- An update has a message where signatures were collected and the rest of it
succeeds. -/
theorem prepareUpdatePolicyMessage_ok_iff {Value PublicKey : Type} {pkg : SignaturePkg Value PublicKey} {c : Collection}
    {polls : List Poll} {r : Except CollectErr (List Signature)} {encode : List Bytes → Except PkgErr Bytes}
    {msg : Bytes}
    (hr : collectSignatures pkg c polls = .leave r) :
    prepareUpdatePolicyMessage (collectedMessage encode r) c.newPolicy c.activePolicy = .ok msg ↔
      ∃ sigs, r = .ok sigs ∧ encode (prepareSignatures sigs) = .ok msg := by
  unfold prepareUpdatePolicyMessage
  cases r with
  | error e =>
    simp only [collectedMessage, reduceCtorEq, false_and, exists_false, iff_false]
    split <;> simp
  | ok sigs =>
    have hnext := (collectSignatures_eq hr (by simp)).1
    simp only [hnext, ne_eq, not_true_eq_false, if_false, collectedMessage, Except.ok.injEq, exists_eq_left']
    cases encode (prepareSignatures sigs) <;> simp

/-- **The keys of a policy message.** The policy is not of epoch zero and the
zero address is no voter of it (their topics would filter nothing), the weights
of the active policy fit a uint16, and the indexer answers. Then the message of
an initialization with the policy exists exactly if every voter is registered
for it, once, with a key of its address, and the request has those keys, one for
each voter in the policy's order. The message of an update to it exists exactly
if moreover the signatures were collected: it has the same keys, and a quorum of
the active policy. -/
theorem policy_keys_exact {Value PublicKey : Type} (pkg : RegistryPkg Value PublicKey) (db : Database)
    (voterRegistryAddress : Address) (chainID : Int) (hsel : pkg.voterRegisteredEventSel ≠ 0)
    (hdb : ∀ params, ∃ rows, db.fetchLogsFull params = .ok rows) {c : Collection} {polls : List Poll}
    {r : Except CollectErr (List Signature)} (hsum : c.activePolicy.weightSum ≤ 65535)
    (hr : collectSignatures pkg.toSignaturePkg c polls = .leave r) (hid : c.newPolicy.rewardEpochID ≠ 0)
    (hvoters : 0 ∉ c.newPolicy.voters.voters) (msg : Bytes) :
    (prepareInitializePolicyActionMessage pkg db voterRegistryAddress c.newPolicy chainID = .ok msg ↔
      ∃ keys, List.Forall₂ (Registered pkg db voterRegistryAddress chainID c.newPolicy) c.newPolicy.voters.voters keys ∧
        keys.map pkg.pubkeyToAddress = c.newPolicy.voters.voters ∧
        pkg.marshalInitialize ⟨pkg.rawBytes c.newPolicy, keys.map pkg.pubKeyToStruct⟩ = .ok msg) ∧
    (prepareUpdatePolicyMessage (collectedMessage (fun sigs =>
        (encodeUpdate pkg db voterRegistryAddress c.newPolicy chainID sigs).mapError pkg.text) r)
        c.newPolicy c.activePolicy = .ok msg ↔
      ∃ keys sigs, List.Forall₂ (Registered pkg db voterRegistryAddress chainID c.newPolicy)
          c.newPolicy.voters.voters keys ∧
        keys.map pkg.pubkeyToAddress = c.newPolicy.voters.voters ∧
        (r = .ok sigs ∧ ∃ signers, Quorum pkg.toSignaturePkg c sigs signers) ∧
        pkg.marshalUpdate ⟨⟨pkg.rawBytes c.newPolicy, prepareSignatures sigs⟩, keys.map pkg.pubKeyToStruct⟩ =
          .ok msg) := by
  constructor
  · simp only [prepareInitializePolicyActionMessage, initializeKeys_eq, Except.bind_ok_iff, Except.mapError_ok_iff,
      updateKeys_ok_iff hsel hdb hid hvoters]
    constructor
    · rintro ⟨points, ⟨keys, hkeys, rfl⟩, hmsg⟩
      exact ⟨keys, hkeys, address_of_registered hkeys, hmsg⟩
    · rintro ⟨keys, hkeys, -, hmsg⟩
      exact ⟨_, ⟨keys, hkeys, rfl⟩, hmsg⟩
  · have hencode (sigs : List Bytes) :
        (encodeUpdate pkg db voterRegistryAddress c.newPolicy chainID sigs).mapError pkg.text =
        .ok msg ↔ ∃ keys, List.Forall₂ (Registered pkg db voterRegistryAddress chainID c.newPolicy)
          c.newPolicy.voters.voters keys ∧
        pkg.marshalUpdate ⟨⟨pkg.rawBytes c.newPolicy, sigs⟩, keys.map pkg.pubKeyToStruct⟩ = .ok msg := by
      simp only [encodeUpdate, Except.bind_ok_iff, Except.mapError_ok_iff, updateKeys_ok_iff hsel hdb hid hvoters]
      constructor
      · rintro ⟨points, ⟨keys, hkeys, rfl⟩, hmsg⟩
        exact ⟨keys, hkeys, hmsg⟩
      · rintro ⟨keys, hkeys, hmsg⟩
        exact ⟨_, ⟨keys, hkeys, rfl⟩, hmsg⟩
    rw [prepareUpdatePolicyMessage_ok_iff hr]
    simp only [hencode]
    constructor
    · rintro ⟨sigs, rfl, keys, hkeys, hmsg⟩
      exact ⟨keys, sigs, hkeys, address_of_registered hkeys, ⟨rfl, quorum_of_returned hsum hr⟩, hmsg⟩
    · rintro ⟨keys, sigs, hkeys, -, ⟨hok, -⟩, hmsg⟩
      exact ⟨sigs, hok, keys, hkeys, hmsg⟩

/-- A registration has its key as its data, and requests are their keys. -/
def RegistryPkg.bytewise : RegistryPkg UInt8 UInt8 where
  toSignaturePkg := .bytewise
  voterRegisteredEventSel := 6
  parseVoterRegisteredEvent log := .ok ⟨log.topics.topic1.setWidth 160, ⟨log.data.headD 0 + 27, 0, 0⟩⟩
  packMsg _ _ _ := .ok []
  packMsgLegacy _ _ := .error "not on Coston"
  keccak256 _ := 0
  pubKeyToStruct key := ⟨.ofNat 256 key.toNat, 0⟩
  rawBytes p := [p.rewardEpochID.toUInt8]
  marshalInitialize r := .ok (r.initialPolicyBytes ++ r.publicKeys.map fun k => .ofNat k.x.toNat)
  marshalUpdate r := .ok (r.newPolicy.policyBytes ++ r.publicKeys.map fun k => .ofNat k.x.toNat)
  text _ := "no message"

/-- The event of a voter's registration for epoch 5 with the registry at
address 8. -/
def registration (voter : UInt8) : Log := ⟨8, ⟨6, 0, 5, .ofNat 256 voter.toNat⟩, [voter], 3, 0, 30, none⟩

/-- Both voters are registered; so is a third, and voter 1 for another epoch. -/
def registrations : Database :=
  .ofLogs [registration 1, { registration 1 with topics := ⟨6, 0, 4, 1⟩ }, registration 3, registration 2] (by decide)

theorem policy_keys_exact_twoVoters :
    prepareInitializePolicyActionMessage .bytewise registrations 8 (twoVoters 5) 14 = .ok [5, 2, 1] ∧
      ∃ keys sigs, List.Forall₂ (Registered .bytewise registrations 8 14 (twoVoters 5)) [2, 1] keys ∧
        (∃ signers, Quorum .bytewise toEpochFive sigs signers) ∧ RegistryPkg.bytewise.marshalUpdate
          ⟨⟨[5], prepareSignatures sigs⟩, keys.map RegistryPkg.bytewise.pubKeyToStruct⟩ = .ok [5, 2, 1] := by
  have hret : collectSignatures .bytewise toEpochFive [pollAt 14 [signed 11 5 7 1, signed 14 5 7 2]] =
      .leave (.ok [⟨28, 0, 0⟩, ⟨29, 0, 0⟩]) := Flow.result?_eq_some.mp (by decide +kernel)
  have hupdate : prepareUpdatePolicyMessage (collectedMessage (fun sigs =>
      (encodeUpdate .bytewise registrations 8 (twoVoters 5) 14 sigs).mapError RegistryPkg.bytewise.text)
      (.ok [⟨28, 0, 0⟩, ⟨29, 0, 0⟩])) (twoVoters 5) (twoVoters 4) = .ok [5, 2, 1] := by
    decide +kernel
  obtain ⟨hinit, hmessage⟩ := policy_keys_exact .bytewise registrations 8 14 (by decide) (fun _ => ⟨_, rfl⟩)
    (show toEpochFive.activePolicy.weightSum ≤ 65535 by decide +kernel) hret (by decide) (by decide +kernel) [5, 2, 1]
  obtain ⟨keys, sigs, hkeys, haddr, ⟨-, hquorum⟩, hmsg⟩ := hmessage.mp hupdate
  exact ⟨hinit.mpr ⟨keys, hkeys, haddr, hmsg⟩, keys, sigs, hkeys, hquorum, hmsg⟩

/-! ## Fetching a policy from the indexer -/

section Fetch

variable {Init : Type} (pkg : PolicyPkg Log Init) (db : Database) (relayAddress : Address)
  (signingPolicyInitializedEventSel : Hash)

/-- The query of `FetchSigningPolicyLog`. -/
def signingPolicyParams (signingPolicyID : UInt32) : LogsFullParams :=
  ⟨relayAddress, ⟨signingPolicyInitializedEventSel, uint32ToHash signingPolicyID, 0, 0⟩, 1⟩

/-- An event of the relay that initializes a policy. -/
def isPolicyEvent (log : Log) : Bool :=
  log.address = relayAddress ∧ log.topics.topic0 = signingPolicyInitializedEventSel

/-- The policy a log initializes. -/
def Initializes (log : Log) (p : SigningPolicy) : Prop :=
  ∃ event, pkg.parseSigningPolicyInitializedEvent log = .ok event ∧ pkg.newSigningPolicy event = .ok p

/-- What the relay's events are: each initializes a policy, whose epoch is its
indexed argument, and no two of them the same epoch. -/
structure RelayHistory : Prop where
  initializes : ∀ log ∈ db.logs, isPolicyEvent relayAddress signingPolicyInitializedEventSel log = true →
    ∃ p, Initializes pkg log p ∧ log.topics.topic1 = uint32ToHash p.rewardEpochID
  once : ((db.logs.filter (isPolicyEvent relayAddress signingPolicyInitializedEventSel)).map (·.topics.topic1)).Nodup

variable {pkg db relayAddress signingPolicyInitializedEventSel} {id : UInt32}

theorem Initializes.unique {log : Log} {p q : SigningPolicy} (hp : Initializes pkg log p) (hq : Initializes pkg log q) :
    p = q := by
  obtain ⟨event, hevent, hp⟩ := hp
  obtain ⟨event', hevent', hq⟩ := hq
  cases hevent.symm.trans hevent'
  exact Except.ok.inj (hp.symm.trans hq)

theorem fetchSigningPolicy_cons {log : Log} {rows : List Log} {p : SigningPolicy} (hp : Initializes pkg log p) :
    fetchSigningPolicy pkg (.ok (log :: rows)) id = .ok (if p.rewardEpochID ≠ id then none else some p) := by
  obtain ⟨event, hevent, hp⟩ := hp
  simp only [fetchSigningPolicy, fetchSigningPolicyLog, List.head?_cons, hevent, hp]
  split <;> rfl

theorem uint32ToHash_injective : Function.Injective uint32ToHash := by
  intro n n' h
  have hnat : n.toNat % 2 ^ 256 = n'.toNat % 2 ^ 256 := congrArg BitVec.toNat h
  have hlt := n.toNat_lt
  have hlt' := n'.toNat_lt
  exact UInt32.toNat_inj.mp (by omega)

theorem selects_signingPolicyParams (hsel : signingPolicyInitializedEventSel ≠ 0) {log : Log} :
    (signingPolicyParams relayAddress signingPolicyInitializedEventSel id).selects log = true ↔
      isPolicyEvent relayAddress signingPolicyInitializedEventSel log = true ∧
        (id ≠ 0 → log.topics.topic1 = uint32ToHash id) := by
  rw [Indexer.selects_iff]
  simp only [signingPolicyParams, isPolicyEvent, Indexer.admits_iff hsel, decide_eq_true_eq, and_assoc]
  by_cases hid : id = 0
  · subst hid
    simp [Indexer.admits, uint32ToHash]
  · simp only [Indexer.admits_iff (uint32ToHash_ne_zero hid), ne_eq, hid, not_false_eq_true, forall_true_left]
    simp [Indexer.admits]

/-- **A policy is found exactly if the relay has initialized it**, for every
epoch but zero, where every query is answered and the relay's events are as
`RelayHistory` has them. The topic of epoch zero filters nothing: its policy is
only found while no event of the relay is newer. And what is found is of the
epoch asked for. -/
theorem policy_fetch_exact (hsel : signingPolicyInitializedEventSel ≠ 0)
    (hrelay : RelayHistory pkg db relayAddress signingPolicyInitializedEventSel)
    (hdb : ∀ params, ∃ rows, db.fetchLogsFull params = .ok rows) (id : UInt32) :
    ∃ found, fetchSigningPolicy pkg
        (db.fetchLogsFull (signingPolicyParams relayAddress signingPolicyInitializedEventSel id)) id = .ok found ∧
      (id ≠ 0 → ∀ p, found = some p ↔ ∃ log ∈ db.logs,
        isPolicyEvent relayAddress signingPolicyInitializedEventSel log = true ∧ Initializes pkg log p ∧
          p.rewardEpochID = id) ∧
      ∀ p, found = some p → p.rewardEpochID = id ∧ ∃ log ∈ db.logs, Initializes pkg log p ∧
        (id = 0 → ∀ log' ∈ db.logs, isPolicyEvent relayAddress signingPolicyInitializedEventSel log' = true →
          log'.timestamp ≤ log.timestamp) := by
  obtain ⟨rows, hrows⟩ := hdb (signingPolicyParams relayAddress signingPolicyInitializedEventSel id)
  obtain ⟨all, hperm, hsorted, hlimit⟩ := db.answers hrows
  have hall {log : Log} : log ∈ all ↔ log ∈ db.logs ∧
      isPolicyEvent relayAddress signingPolicyInitializedEventSel log = true ∧
        (id ≠ 0 → log.topics.topic1 = uint32ToHash id) := by
    rw [hperm.mem_iff, List.mem_filter, selects_signingPolicyParams hsel]
  have htake : rows = all.take 1 := hlimit.trans (if_neg (show ¬ (1 : Int) < 0 by decide))
  rw [hrows, htake]
  cases all with
  | nil =>
    refine ⟨none, rfl, fun hid p => ?_, fun p hp => by cases hp⟩
    constructor
    · intro hp
      cases hp
    · rintro ⟨log, hlog, hevent, hp, hepoch⟩
      obtain ⟨q, hq, htopic⟩ := hrelay.initializes log hlog hevent
      rw [hq.unique hp, hepoch] at htopic
      cases hall.mpr ⟨hlog, hevent, fun _ => htopic⟩
  | cons log rest =>
    obtain ⟨hlog, hevent, htopic⟩ := hall.mp List.mem_cons_self
    obtain ⟨q, hq, htopicq⟩ := hrelay.initializes log hlog hevent
    refine ⟨_, fetchSigningPolicy_cons hq, fun hid p => ?_, fun p hp => ?_⟩
    · -- Another log of the epoch would be this one.
      have hepoch : q.rewardEpochID = id := uint32ToHash_injective (htopicq.symm.trans (htopic hid))
      rw [if_neg (not_not.mpr hepoch)]
      constructor
      · rintro ⟨⟩
        exact ⟨log, hlog, hevent, hq, hepoch⟩
      · rintro ⟨log', hlog', hevent', hp, hepoch'⟩
        obtain ⟨q', hq', htopic'⟩ := hrelay.initializes log' hlog' hevent'
        rw [hq'.unique hp, hepoch', ← htopic hid] at htopic'
        have hsame : log' = log := List.inj_on_of_nodup_map hrelay.once (List.mem_filter.mpr ⟨hlog', hevent'⟩)
          (List.mem_filter.mpr ⟨hlog, hevent⟩) htopic'
        rw [hsame] at hp
        rw [hq.unique hp]
    · split at hp
      next => cases hp
      next hepoch =>
        cases hp
        refine ⟨not_not.mp hepoch, log, hlog, hq, fun hid log' hlog' hevent' => ?_⟩
        rcases List.mem_cons.mp (hall.mpr ⟨hlog', hevent', fun hne => absurd hid hne⟩) with rfl | hmem
        · exact UInt64.le_refl _
        · exact List.rel_of_pairwise_cons hsorted hmem

end Fetch

/-- Policies without voters, of the epoch that is the log's data. -/
def PolicyPkg.epochs : PolicyPkg Log UInt32 where
  parseSigningPolicyInitializedEvent log := .ok (log.data.headD 0).toUInt32
  newSigningPolicy epoch := .ok ⟨epoch, 0, .ofMap ∅⟩

/-- The event of a relay at address 7 that initializes an epoch. -/
def initialized (epoch : UInt8) : Log := ⟨7, ⟨5, .ofNat 256 epoch.toNat, 0, 0⟩, [epoch], 0, 0, epoch.toUInt64, none⟩

/-- The relay has initialized epochs zero to two. -/
def threeEpochs : Database := .ofLogs [initialized 2, initialized 1, initialized 0] (by decide)

theorem relayHistory_threeEpochs : RelayHistory .epochs threeEpochs 7 5 where
  initializes := by
    intro log hlog _
    have hcases : log = initialized 2 ∨ log = initialized 1 ∨ log = initialized 0 := by
      simpa [threeEpochs, Database.ofLogs] using hlog
    rcases hcases with rfl | rfl | rfl <;> exact ⟨_, ⟨_, rfl, rfl⟩, rfl⟩
  once := by decide +kernel

/-- Epoch one is found, and epoch zero no longer. -/
theorem policy_fetch_exact_threeEpochs :
    (∃ p, p.rewardEpochID = 1 ∧ fetchSigningPolicy .epochs (threeEpochs.fetchLogsFull (signingPolicyParams 7 5 1)) 1 =
      .ok (some p)) ∧
    fetchSigningPolicy .epochs (threeEpochs.fetchLogsFull (signingPolicyParams 7 5 0)) 0 = .ok none := by
  obtain ⟨found, hfound, hone, -⟩ :=
    policy_fetch_exact (by decide) relayHistory_threeEpochs (fun _ => ⟨_, rfl⟩) 1
  obtain ⟨found', hfound', -, hzero⟩ :=
    policy_fetch_exact (by decide) relayHistory_threeEpochs (fun _ => ⟨_, rfl⟩) 0
  refine ⟨⟨⟨1, 0, .ofMap ∅⟩, rfl, ?_⟩, ?_⟩
  · rw [hfound, (hone (by decide) _).mpr ⟨initialized 1, by decide +kernel, by decide, ⟨1, rfl, rfl⟩, rfl⟩]
  · cases found' with
    | none => exact hfound'
    | some p =>
      obtain ⟨hepoch, log, hlog, ⟨event, hevent, hp⟩, hnewest⟩ := hzero p rfl
      have htwo := hnewest rfl (initialized 2) (by decide +kernel) (by decide)
      have hcases : log = initialized 2 ∨ log = initialized 1 ∨ log = initialized 0 := by
        simpa [threeEpochs, Database.ofLogs] using hlog
      rcases hcases with rfl | rfl | rfl
      · cases hevent; cases hp; cases hepoch
      · cases hevent; cases hp; cases hepoch
      · exact absurd htwo (by decide)

end TeeProxy.Policy
