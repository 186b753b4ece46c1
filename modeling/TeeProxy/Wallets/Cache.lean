/-
The wallet cache (`internal/service/wallets`): the proxy's mirror of the
node's keys, as two maps, and every piece of code that writes them: the
event loop (`update`), the batches of a sync (`writeBatch`) and its eviction
(`removeStaleKeys`).
-/
import TeeProxy.Types

namespace TeeProxy.Wallets

/-- `wallets.KeyIDPair`. -/
structure IDPair where
  walletID : Hash
  keyID : UInt64
  deriving DecidableEq, Repr

/-- `pkg/wallets.ConfigConstants`, as far as the proxy reads it. -/
structure ConfigConstants where
  cosigners : List Address
  cosignersThreshold : UInt64
  deriving DecidableEq, Repr

/-- `pkg/wallets.KeyExistence`, as far as the proxy reads it. `nonce` is a
`*big.Int`, nil or decoded from a uint256. -/
structure KeyExistence where
  walletID : Hash
  keyID : UInt64
  nonce : Option Nat
  configConstants : ConfigConstants
  deriving DecidableEq, Repr

def KeyExistence.id (info : KeyExistence) : IDPair := ⟨info.walletID, info.keyID⟩

/-- tee-node's `SignedKeyExistenceProof`. -/
structure SignedProof where
  keyExistence : Bytes
  signature : Bytes
  deriving DecidableEq, Repr

/-- `pkg/wallets.KeyData`. -/
structure KeyData where
  info : KeyExistence
  proof : SignedProof
  deriving DecidableEq, Repr

/-- tee-node's `types.KeyInfo`. -/
structure KeyInfo where
  walletID : Hash
  keyID : UInt64
  nonce : UInt64
  deriving DecidableEq, Repr

def KeyInfo.id (info : KeyInfo) : IDPair := ⟨info.walletID, info.keyID⟩

/-- The decoders of result data. A JSON `null` in a list of proofs is a nil
pointer. -/
structure WalletPkg where
  unmarshalProof : Bytes → Except PkgErr SignedProof
  unmarshalProofs : Bytes → Except PkgErr (List (Option SignedProof))
  unmarshalIDPair : Bytes → Except PkgErr IDPair
  unmarshalKeyInfos : Bytes → Except PkgErr (List KeyInfo)
  decodeKeyExistence : Bytes → Except PkgErr KeyExistence

/-- The errors of the wallet cache. -/
inductive Err
  | walletNotFound
  | keyDataNotFound
  | keyUpdate
  | invalidActionResult
  | invalidOpType
  | invalidOpCommand
  | unsupportedCommand (opCommand : Hash)
  | decode (e : PkgErr)
  /-- A read through a nil proof: the goroutine panics and the process ends. -/
  | nilProof
  deriving DecidableEq, Repr

/-- The two maps of `wallets.Service`. -/
structure Cache where
  keysForWallet : GoMap Hash (List UInt64)
  keys : GoMap IDPair KeyData

def Cache.empty : Cache := ⟨∅, ∅⟩

/-- `s.KeysForWallet[walletID]`, nil read as empty. -/
def Cache.keyIDs (c : Cache) (walletID : Hash) : List UInt64 := (c.keysForWallet.get? walletID).getD []

/-- What `updateOrAddKey` and a batch of `sync` do with a parsed proof: the
key ID joins its wallet's list unless it is there, the key data is replaced. -/
def Cache.put (c : Cache) (info : KeyExistence) (proof : SignedProof) : Cache where
  keysForWallet :=
    if info.keyID ∈ c.keyIDs info.walletID then c.keysForWallet
    else c.keysForWallet.set info.walletID (c.keyIDs info.walletID ++ [info.keyID])
  keys := c.keys.set info.id ⟨info, proof⟩

/-- What `removeKey` and `removeStaleKeys` do with a key: it leaves both maps,
and a wallet left without keys leaves the first. -/
def Cache.drop (c : Cache) (id : IDPair) : Cache where
  keysForWallet :=
    let rest := (c.keyIDs id.walletID).filter fun k => k ≠ id.keyID
    if rest = [] then (c.keysForWallet.set id.walletID rest).delete id.walletID
    else c.keysForWallet.set id.walletID rest
  keys := c.keys.delete id

/-- `WalletInfo`: what is known of the wallet's first key. -/
def Cache.walletInfo (c : Cache) (walletID : Hash) : Except Err KeyExistence :=
  match c.keysForWallet.get? walletID with
  | none | some [] => .error .walletNotFound
  | some (keyID :: _) => match c.keys.get? ⟨walletID, keyID⟩ with
    | none => .error .keyDataNotFound
    | some data => .ok data.info

section Update

variable (op : OpPkg) (pkg : WalletPkg)

/-- `parseKeyExistenceProof`. -/
def parseKeyExistenceProof (proof : SignedProof) : Except Err KeyExistence :=
  (pkg.decodeKeyExistence proof.keyExistence).mapError .decode

/-- `parseNewKeyActionResult`. -/
def parseNewKeyActionResult (r : ActionResult) : Except Err SignedProof :=
  if r.status ≠ 1 then .error .invalidActionResult
  else if r.opType ≠ op.typeHash .wallet then .error .invalidOpType
  else if r.opCommand ≠ op.commandHash .keyDataProviderRestore ∧ r.opCommand ≠ op.commandHash .keyGenerate ∧
      r.opCommand ≠ op.commandHash .keyDirectRestore then .error .invalidOpCommand
  else (pkg.unmarshalProof r.data).mapError .decode

/-- `parseKeyDeleteActionResult`. -/
def parseKeyDeleteActionResult (r : ActionResult) : Except Err IDPair :=
  if r.status ≠ 1 then .error .invalidActionResult
  else if r.opType ≠ op.typeHash .wallet then .error .invalidOpType
  else if r.opCommand ≠ op.commandHash .keyDelete then .error .invalidOpCommand
  else (pkg.unmarshalIDPair r.data).mapError .decode

/-- What a key result asks of the cache, once parsed. -/
inductive KeyChange
  | add (info : KeyExistence) (proof : SignedProof)
  | remove (id : IDPair)

/-- The parsing half of `update`, `updateOrAddKey` and `removeKey`: all of it
comes before the lock. -/
def parseUpdate (r : ActionResult) : Except Err KeyChange :=
  if r.status ≠ 1 then .error .keyUpdate
  else if r.opCommand = op.commandHash .keyGenerate ∨ r.opCommand = op.commandHash .keyDataProviderRestore ∨
      r.opCommand = op.commandHash .keyDirectRestore then do
    let keyInfo ← parseNewKeyActionResult op pkg r
    let info ← parseKeyExistenceProof pkg keyInfo
    return .add info keyInfo
  else if r.opCommand = op.commandHash .keyDelete then do
    let idPair ← parseKeyDeleteActionResult op pkg r
    return .remove idPair
  else .error (.unsupportedCommand r.opCommand)

def Cache.apply (c : Cache) : KeyChange → Cache
  | .add info proof => c.put info proof
  | .remove id => c.drop id

/-- `Service.update`: the key it was about and whether it was added. -/
def Cache.update (c : Cache) (r : ActionResult) : Cache × Except Err (IDPair × Bool) :=
  match parseUpdate op pkg r with
  | .error e => (c, .error e)
  | .ok (.add info proof) => (c.apply (.add info proof), .ok (info.id, true))
  | .ok (.remove id) => (c.apply (.remove id), .ok (id, false))

/-- One locked batch of `sync`: proofs are written until one does not parse. -/
def Cache.writeBatch (c : Cache) : List (Option SignedProof) → Cache × Except Err Unit
  | [] => (c, .ok ())
  | none :: _ => (c, .error .nilProof)
  | some proof :: proofs => match parseKeyExistenceProof pkg proof with
    | .error e => (c, .error e)
    | .ok info => (c.put info proof).writeBatch proofs

end Update

/-- `localKeySet`. -/
def Cache.localKeySet (c : Cache) : List IDPair := c.keys.keys

/-- `keysNeedingProof`: the remote pairs that are not cached, or whose nonce
differs from the cached one (`big.Int.Uint64` keeps the low 64 bits). -/
def Cache.keysNeedingProof (c : Cache) (remote : List KeyInfo) : List IDPair :=
  (remote.filter fun info => match c.keys.get? info.id with
    | none => true
    | some stored => match stored.info.nonce with
      | none => true
      | some n => UInt64.ofNat n ≠ info.nonce).map KeyInfo.id

/-- `removeStaleKeys`: the cached keys that are absent from `remote` and were
there at the start of the sync. -/
def Cache.removeStaleKeys (c : Cache) (remote : List KeyInfo) (localAtStart : List IDPair) : Cache :=
  (c.keys.keys.filter fun id => id ∉ remote.map KeyInfo.id ∧ id ∈ localAtStart).foldl Cache.drop c

/-! ## Which keys are cached -/

/-- The key is in `Keys`. -/
def Cache.Has (c : Cache) (k : IDPair) : Prop := k ∈ c.keys.keys

instance (c : Cache) (k : IDPair) : Decidable (c.Has k) := inferInstanceAs (Decidable (k ∈ c.keys.keys))

/-- The key is neither in `Keys` nor in its wallet's list. -/
def Cache.Gone (c : Cache) (k : IDPair) : Prop := ¬ c.Has k ∧ k.keyID ∉ c.keyIDs k.walletID

instance (c : Cache) (k : IDPair) : Decidable (c.Gone k) := by unfold Cache.Gone; infer_instance

namespace Cache

variable {c : Cache} {k : IDPair}

theorem has_put (info : KeyExistence) (proof : SignedProof) : (c.put info proof).Has k ↔ k = info.id ∨ c.Has k := by
  simp only [Has, put, GoMap.mem_keys, GoMap.get?_set]
  by_cases h : k = info.id <;> simp [h]

theorem has_drop (id : IDPair) : (c.drop id).Has k ↔ k ≠ id ∧ c.Has k := by
  simp only [Has, drop, GoMap.mem_keys, GoMap.get?_delete]
  by_cases h : k = id <;> simp [h]

theorem has_drops : ∀ (ids : List IDPair) {c : Cache}, (ids.foldl drop c).Has k ↔ k ∉ ids ∧ c.Has k
  | [], c => by simp
  | id :: ids, c => by
    rw [List.foldl_cons, has_drops ids, has_drop, List.mem_cons, not_or]
    tauto

theorem has_removeStaleKeys (remote : List KeyInfo) (localAtStart : List IDPair) :
    (c.removeStaleKeys remote localAtStart).Has k ↔ c.Has k ∧ (k ∈ remote.map KeyInfo.id ∨ k ∉ localAtStart) := by
  rw [removeStaleKeys, has_drops, List.mem_filter]
  simp only [decide_eq_true_eq, Has]
  tauto

theorem keyIDs_put (info : KeyExistence) (proof : SignedProof) (w : Hash) (n : UInt64) :
    n ∈ (c.put info proof).keyIDs w ↔ (w = info.walletID ∧ n = info.keyID) ∨ n ∈ c.keyIDs w := by
  by_cases hmem : info.keyID ∈ c.keyIDs info.walletID
  · have hput : (c.put info proof).keysForWallet = c.keysForWallet := if_pos hmem
    rw [keyIDs, hput]
    refine ⟨.inr, ?_⟩
    rintro (⟨rfl, rfl⟩ | h)
    · exact hmem
    · exact h
  · have hput : (c.put info proof).keysForWallet =
        c.keysForWallet.set info.walletID (c.keyIDs info.walletID ++ [info.keyID]) := if_neg hmem
    by_cases hw : w = info.walletID
    · subst hw
      rw [keyIDs, hput, GoMap.get?_set_self, Option.getD_some, List.mem_append, List.mem_singleton]
      tauto
    · rw [keyIDs, hput, GoMap.get?_set_ne _ hw]
      exact ⟨.inr, fun h => h.resolve_left fun h' => hw h'.1⟩

theorem keyIDs_drop (id : IDPair) (w : Hash) (n : UInt64) :
    n ∈ (c.drop id).keyIDs w ↔ ¬ (w = id.walletID ∧ n = id.keyID) ∧ n ∈ c.keyIDs w := by
  have hget : ∀ w, ((c.drop id).keysForWallet.get? w).getD [] =
      if w = id.walletID then (c.keyIDs w).filter fun k => k ≠ id.keyID else c.keyIDs w := by
    intro w
    simp only [drop]
    split
    next hnil =>
      by_cases hw : w = id.walletID
      · subst hw; rw [GoMap.get?_delete, if_pos rfl, if_pos rfl, hnil]; rfl
      · rw [GoMap.get?_delete, if_neg hw, GoMap.get?_set_ne _ hw, if_neg hw]; rfl
    next =>
      by_cases hw : w = id.walletID
      · subst hw; rw [GoMap.get?_set_self, if_pos rfl]; rfl
      · rw [GoMap.get?_set_ne _ hw, if_neg hw]; rfl
  rw [keyIDs, hget]
  by_cases hw : w = id.walletID
  · rw [if_pos hw, List.mem_filter]; simp [hw, and_comm]
  · rw [if_neg hw]; simp [hw]

theorem Gone.put (h : c.Gone k) {info : KeyExistence} (hk : k ≠ info.id) (proof : SignedProof) :
    (c.put info proof).Gone k := by
  refine ⟨fun hp => ?_, fun hp => ?_⟩
  · exact h.1 (((has_put info proof).mp hp).resolve_left hk)
  · refine h.2 (((keyIDs_put info proof _ _).mp hp).resolve_left fun heq => hk ?_)
    rw [KeyExistence.id, ← heq.1, ← heq.2]

theorem Gone.drop (h : c.Gone k) (id : IDPair) : (c.drop id).Gone k :=
  ⟨fun hd => h.1 ((has_drop id).mp hd).2, fun hd => h.2 ((keyIDs_drop id _ _).mp hd).2⟩

theorem gone_drop_self (id : IDPair) : (c.drop id).Gone id :=
  ⟨fun hd => ((has_drop id).mp hd).1 rfl, fun hd => ((keyIDs_drop id _ _).mp hd).1 ⟨rfl, rfl⟩⟩

theorem removeStaleKeys_inv (P : Cache → Prop) (hdrop : ∀ c id, P c → P (c.drop id)) (h : P c)
    (remote : List KeyInfo) (localAtStart : List IDPair) : P (c.removeStaleKeys remote localAtStart) := by
  have all : ∀ (ids : List IDPair) {c : Cache}, P c → P (ids.foldl Cache.drop c) := by
    intro ids
    induction ids with
    | nil => exact fun h => h
    | cons id ids ih => exact fun h => ih (hdrop _ id h)
  exact all _ h

theorem Gone.removeStaleKeys (h : c.Gone k) (remote : List KeyInfo) (localAtStart : List IDPair) :
    (c.removeStaleKeys remote localAtStart).Gone k :=
  removeStaleKeys_inv (·.Gone k) (fun _ id h => h.drop id) h remote localAtStart

/-! ### A batch -/

/-- The keys the proofs of a batch are for, as far as they parse. -/
def proofIDs (pkg : WalletPkg) (proofs : List (Option SignedProof)) : List IDPair :=
  proofs.filterMap fun proof => proof.bind fun proof =>
    ((parseKeyExistenceProof pkg proof).toOption).map KeyExistence.id

/-- A batch is written key by key, so where it stops does not matter: what
adding a key keeps, a batch keeps. -/
theorem writeBatch_inv {pkg : WalletPkg} (P : Cache → Prop) (hput : ∀ c info proof, P c → P (c.put info proof)) :
    ∀ (proofs : List (Option SignedProof)) {c : Cache}, P c → P (c.writeBatch pkg proofs).1
  | [], _, h => h
  | none :: _, _, h => h
  | some proof :: proofs, c, h => by
    unfold Cache.writeBatch
    split
    · exact h
    next info _ => exact writeBatch_inv P hput proofs (hput c info proof h)

theorem has_writeBatch_of_has {pkg : WalletPkg} (proofs : List (Option SignedProof)) (h : c.Has k) :
    (c.writeBatch pkg proofs).1.Has k :=
  writeBatch_inv (·.Has k) (fun _ info proof h => (has_put info proof).mpr (.inr h)) proofs h

theorem Gone.writeBatch {pkg : WalletPkg} :
    ∀ (proofs : List (Option SignedProof)) {c : Cache}, c.Gone k → k ∉ proofIDs pkg proofs →
      (c.writeBatch pkg proofs).1.Gone k
  | [], _, h, _ => h
  | none :: _, _, h, _ => h
  | some proof :: proofs, c, h, hk => by
    unfold Cache.writeBatch
    split
    · exact h
    next info hp =>
      have hcons : proofIDs pkg (some proof :: proofs) = info.id :: proofIDs pkg proofs := by
        simp only [proofIDs, List.filterMap_cons, Option.bind_some, hp, Except.toOption, Option.map_some]
      rw [hcons, List.mem_cons, not_or] at hk
      exact Gone.writeBatch proofs (h.put hk.1 proof) hk.2

end Cache

end TeeProxy.Wallets
