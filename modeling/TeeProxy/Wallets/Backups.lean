/-
Backups of wallet keys (`internal/service/wallets/backups.go`): a body under
the hash of its backup ID, and an index from each key to the hash of its
latest backup. `createNewBackup` writes the body first, then the index, and
either write may fail.

The event loop handles results one at a time. `FetchLatestBackup` is served
beside it, so its read of the body may come any number of results after its
read of the index.

`latest_backup_own`: whenever the index has a hash for a key, there is a body
under it, of that key; so a fetch never answers with another key's backup and
never finds the body missing.
-/
import TeeProxy.Lib.Hex
import TeeProxy.Lib.Lts
import TeeProxy.Storage
import TeeProxy.Wallets.Cache
import Mathlib.Data.Set.Defs

namespace TeeProxy.Wallets

/-! ## The service -/

/-- tee-node's backup ID. The proxy reads the pair; the hash is of all. -/
structure BackupID where
  walletID : Hash
  keyID : UInt64
  rest : Bytes
  deriving DecidableEq, Repr

def BackupID.pair (id : BackupID) : IDPair := ⟨id.walletID, id.keyID⟩

/-- tee-node's `TEEBackupResponse`, as far as the proxy reads it. -/
structure TEEBackupResponse where
  backupID : BackupID
  content : Bytes
  deriving DecidableEq, Repr

/-- The decoder of result data, which takes a JSON `null` for a nil pointer,
and `BackupID.Hash`. -/
structure BackupPkg where
  unmarshal : Bytes → Except PkgErr (Option TEEBackupResponse)
  hash : BackupID → Except PkgErr Hash

/-- The stores of the wallet service: both in one backend, neither seen
through the other. -/
structure BackupService (ε σ : Type) where
  pkg : BackupPkg
  index : Storage ε σ Hash
  backups : Storage ε σ (Option TEEBackupResponse)
  index_unseen : index.Unseen backups
  backups_unseen : backups.Unseen index

inductive BackupErr (ε : Type)
  | unmarshaling (e : PkgErr)
  | nilResponse
  | hashing (e : PkgErr)
  | storing (e : ε)
  /-- The body is stored all the same. -/
  | storingIndex (pair : IDPair) (idHash : Hash) (e : ε)
  /-- Status 404: the index has nothing for the key. -/
  | notFound
  /-- Status 404: the body the index points at is missing. -/
  | orphanIndex (pair : IDPair) (idHash : Hash)
  | fetchingHash (pair : IDPair) (e : ε)
  | fetchingBackup (pair : IDPair) (idHash : Hash) (e : ε)
  deriving DecidableEq, Repr

def toKey (pair : IDPair) : String := Hex.encode 64 pair.walletID.toNat ++ "-" ++ Nat.repr pair.keyID.toNat

/-- The key of a body. -/
def idHashKey (idHash : Hash) : String := Hex.encode 64 idHash.toNat

namespace BackupService

variable {ε σ : Type} (s : BackupService ε σ)

/-- `createNewBackup`: the body, then the index. -/
def createNewBackup (okBody okIndex : Bool) (r : ActionResult) (st : σ) : σ × Except (BackupErr ε) Unit :=
  match s.pkg.unmarshal r.data with
  | .error e => (st, .error (.unmarshaling e))
  | .ok none => (st, .error .nilResponse)
  | .ok (some b) => match s.pkg.hash b.backupID with
    | .error e => (st, .error (.hashing e))
    | .ok idHash => match s.backups.setWithTTL okBody (idHashKey idHash) (some b) st with
      | .error e => (st, .error (.storing e))
      | .ok st' => match s.index.setWithTTL okIndex (toKey b.backupID.pair) idHash st' with
        | .error e => (st', .error (.storingIndex b.backupID.pair idHash e))
        | .ok st'' => (st'', .ok ())

/-- `FetchLatestBackup`, whose read of the index finds the backend in `st` and
whose read of the body finds it in `st'`. -/
def fetchLatestBackup [DecidableEq ε] (okIndex okBody : Bool) (pair : IDPair) (st st' : σ) :
    Except (BackupErr ε) (Option TEEBackupResponse) :=
  match s.index.get okIndex (toKey pair) st with
  | .error e => if e = s.index.notFound then .error .notFound else .error (.fetchingHash pair e)
  | .ok idHash => match s.backups.get okBody (idHashKey idHash) st' with
    | .error e =>
      if e = s.backups.notFound then .error (.orphanIndex pair idHash) else .error (.fetchingBackup pair idHash e)
    | .ok backup => .ok backup

/-- A result the event loop takes, and how the two writes go. -/
structure Received where
  result : ActionResult
  okBody : Bool
  okIndex : Bool

/-- The index starts empty. -/
def system : Lts.System σ Received where
  init st := ∀ key, s.index.get true key st = .error s.index.notFound
  step st e := some (s.createNewBackup e.okBody e.okIndex e.result st).1

/-- The backup ID in a result, if it has one, is among `ids`. -/
def Within (ids : Set BackupID) (_ : σ) (e : Received) : Prop :=
  ∀ b, s.pkg.unmarshal e.result.data = .ok (some b) → b.backupID ∈ ids

/-- On `ids` the hash is free of collisions between keys. -/
def Covers (pkg : BackupPkg) (ids : Set BackupID) : Prop :=
  ∀ i ∈ ids, ∀ j ∈ ids, ∀ h, pkg.hash i = .ok h → pkg.hash j = .ok h → i.pair = j.pair

end BackupService

/-! ## The keys -/

theorem toKey_injective : Function.Injective toKey := by
  intro pair pair' h
  unfold toKey at h
  rw [String.append_assoc, String.append_assoc] at h
  obtain ⟨hwallet, hrest⟩ := Hex.encode_append_injective pair.walletID.isLt pair'.walletID.isLt h
  have hdigits := (String.append_right_inj _).mp hrest
  rw [Nat.repr_eq_ofList_toDigits, Nat.repr_eq_ofList_toDigits, String.ofList_inj] at hdigits
  have hkey : pair.keyID.toNat = pair'.keyID.toNat := by
    rw [← @Nat.ofDigitChars_ten_toDigits pair.keyID.toNat, hdigits, Nat.ofDigitChars_ten_toDigits]
  cases pair
  cases pair'
  exact congrArg₂ IDPair.mk (BitVec.eq_of_toNat_eq hwallet) (UInt64.toNat_inj.mp hkey)

theorem idHashKey_injective : Function.Injective idHashKey :=
  fun h h' heq => BitVec.eq_of_toNat_eq (Hex.encode_injective h.isLt h'.isLt heq)

namespace BackupService

variable {ε σ : Type} {s : BackupService ε σ}

/-! ## One call -/

/-- What a call can do: nothing, or write the body, and then write the index
or fail. -/
inductive Call (s : BackupService ε σ) (r : ActionResult) (st : σ) : σ × Except (BackupErr ε) Unit → Prop
  | nothing (e) : Call s r st (st, .error e)
  | body {b idHash okBody st'} (e) (hdata : s.pkg.unmarshal r.data = .ok (some b))
      (hhash : s.pkg.hash b.backupID = .ok idHash)
      (hbody : s.backups.setWithTTL okBody (idHashKey idHash) (some b) st = .ok st') :
    Call s r st (st', .error e)
  | both {b idHash okBody okIndex st' st''} (hdata : s.pkg.unmarshal r.data = .ok (some b))
      (hhash : s.pkg.hash b.backupID = .ok idHash)
      (hbody : s.backups.setWithTTL okBody (idHashKey idHash) (some b) st = .ok st')
      (hindex : s.index.setWithTTL okIndex (toKey b.backupID.pair) idHash st' = .ok st'') :
    Call s r st (st'', .ok ())

theorem createNewBackup_call (okBody okIndex : Bool) (r : ActionResult) (st : σ) :
    Call s r st (s.createNewBackup okBody okIndex r st) := by
  unfold createNewBackup
  split
  · exact .nothing _
  · exact .nothing _
  next hdata =>
    split
    · exact .nothing _
    next hhash =>
      split
      · exact .nothing _
      next hbody =>
        split
        · exact .body _ hdata hhash hbody
        next hindex => exact .both hdata hhash hbody hindex

theorem Call.index_eq {r : ActionResult} {st : σ} {out : σ × Except (BackupErr ε) Unit} (h : Call s r st out)
    {e : BackupErr ε} (he : out.2 = .error e) (ok : Bool) (key : String) :
    s.index.get ok key out.1 = s.index.get ok key st := by
  cases h with
  | nothing e => rfl
  | body e hdata hhash hbody => exact s.backups_unseen hbody ok key
  | both => cases he

/-! ## Every run -/

/-- Under the hash there is a body with it, of a backup among `ids`. -/
def Stored (s : BackupService ε σ) (ids : Set BackupID) (st : σ) (h : Hash) (b : TEEBackupResponse) : Prop :=
  s.backups.get true (idHashKey h) st = .ok (some b) ∧ s.pkg.hash b.backupID = .ok h ∧ b.backupID ∈ ids

/-- A body under a hash is only replaced by another with that hash. -/
theorem Stored.set {ids : Set BackupID} {okBody : Bool} {st st' : σ} {idHash h : Hash} {b c : TEEBackupResponse}
    (hb : Stored s ids st h b) (hhash : s.pkg.hash c.backupID = .ok idHash) (hmem : c.backupID ∈ ids)
    (hset : s.backups.setWithTTL okBody (idHashKey idHash) (some c) st = .ok st') : ∃ b', Stored s ids st' h b' := by
  by_cases heq : h = idHash
  · subst heq
    exact ⟨c, s.backups.get_set hset, hhash, hmem⟩
  · exact ⟨b, (s.backups.get_other hset (idHashKey_injective.ne heq) true).trans hb.1, hb.2⟩

theorem Stored.index_set {ids : Set BackupID} {okIndex : Bool} {key : String} {st st' : σ} {idHash h : Hash}
    {b : TEEBackupResponse} (hb : Stored s ids st h b) (hset : s.index.setWithTTL okIndex key idHash st = .ok st') :
    Stored s ids st' h b := ⟨(s.index_unseen hset true _).trans hb.1, hb.2⟩

/-- **Bodies stay.** Once there is a body under a hash, there is one after any
call. -/
theorem Call.stored {ids : Set BackupID} {r : ActionResult} {st : σ} {out : σ × Except (BackupErr ε) Unit}
    (hc : Call s r st out) (hin : ∀ b, s.pkg.unmarshal r.data = .ok (some b) → b.backupID ∈ ids) {h : Hash}
    {b : TEEBackupResponse} (hb : Stored s ids st h b) : ∃ b', Stored s ids out.1 h b' := by
  cases hc with
  | nothing e => exact ⟨b, hb⟩
  | body e hdata hhash hbody => exact hb.set hhash (hin _ hdata) hbody
  | both hdata hhash hbody hindex =>
    obtain ⟨b', hb'⟩ := hb.set hhash (hin _ hdata) hbody
    exact ⟨b', hb'.index_set hindex⟩

/-- What the index answers: nothing, or a hash with a body under it, of the
key's own pair. -/
def Indexed (s : BackupService ε σ) (ids : Set BackupID) (st : σ) : Prop :=
  ∀ pair, s.index.get true (toKey pair) st = .error s.index.notFound ∨
    ∃ h b, s.index.get true (toKey pair) st = .ok h ∧ Stored s ids st h b ∧ b.backupID.pair = pair

/-- **One call.** -/
theorem Call.indexed {ids : Set BackupID} (hcov : Covers s.pkg ids) {r : ActionResult} {st : σ}
    {out : σ × Except (BackupErr ε) Unit} (hc : Call s r st out)
    (hin : ∀ b, s.pkg.unmarshal r.data = .ok (some b) → b.backupID ∈ ids) (hi : Indexed s ids st) :
    Indexed s ids out.1 := by
  intro pair
  -- Where the index answers as before, the body is there as `Call.stored` says.
  have hkeep (hsame : s.index.get true (toKey pair) out.1 = s.index.get true (toKey pair) st) :
      s.index.get true (toKey pair) out.1 = .error s.index.notFound ∨
        ∃ h b, s.index.get true (toKey pair) out.1 = .ok h ∧ Stored s ids out.1 h b ∧ b.backupID.pair = pair := by
    rcases hi pair with hnone | ⟨h, b, hget, hb, hpair⟩
    · exact .inl (hsame.trans hnone)
    · obtain ⟨b', hb'⟩ := hc.stored hin hb
      exact .inr ⟨h, b', hsame.trans hget, hb', hcov _ hb'.2.2 _ hb.2.2 h hb'.2.1 hb.2.1 |>.trans hpair⟩
  cases hout : out.2 with
  | error e => exact hkeep (hc.index_eq hout true _)
  | ok _ =>
    cases hc with
    | nothing e => cases hout
    | body e => cases hout
    | @both b idHash _ _ st' st'' hdata hhash hbody hindex =>
      by_cases hp : pair = b.backupID.pair
      · subst hp
        have hb : Stored s ids st' idHash b := ⟨s.backups.get_set hbody, hhash, hin b hdata⟩
        exact .inr ⟨idHash, b, s.index.get_set hindex, hb.index_set hindex, rfl⟩
      · exact hkeep ((s.index.get_other hindex (toKey_injective.ne hp) true).trans (s.backups_unseen hbody true _))

theorem indexed_of_reach {ids : Set BackupID} (hcov : Covers s.pkg ids) {st : σ}
    (h : Lts.Reach s.system (s.Within ids) st) : Indexed s ids st := by
  refine h.invariant (Indexed s ids) ?_ ?_
  · intro st hinit pair
    have hempty : ∀ key, s.index.get true key st = .error s.index.notFound := hinit
    exact .inl (hempty _)
  · intro st e st' _ hi hin hstep
    cases hstep
    exact (createNewBackup_call _ _ _ _).indexed hcov hin hi

theorem stored_later {ids : Set BackupID} {st st' : σ} (hl : Lts.Later s.system (s.Within ids) st st') {h : Hash}
    {b : TEEBackupResponse} (hb : Stored s ids st h b) : ∃ b', Stored s ids st' h b' := by
  induction hl with
  | refl => exact ⟨b, hb⟩
  | step _ hin hstep ih =>
    cases hstep
    obtain ⟨b', hb'⟩ := ih
    exact (createNewBackup_call _ _ _ _).stored hin hb'

/-- **The index serves a key its own backups.** In every run of calls, whatever
their data and whichever of their writes fail, on whose backup IDs the hash
has no collisions: where the index has a hash for a pair there is a body under
it that names the pair. So a fetch of the pair answers a backup of the pair or
not-found, unless one of its reads fails, and never finds the index dangling,
also when other results are stored between its reads. And a call that fails
leaves every entry of the index as it was. -/
theorem latest_backup_own [DecidableEq ε] (s : BackupService ε σ) (ids : Set BackupID) (hcov : Covers s.pkg ids) :
    (∀ st, Lts.Reach s.system (s.Within ids) st →
      (∀ pair h, s.index.get true (toKey pair) st = .ok h →
        ∃ b, s.backups.get true (idHashKey h) st = .ok (some b) ∧ b.backupID.pair = pair) ∧
      ∀ st', Lts.Later s.system (s.Within ids) st st' → ∀ pair okIndex okBody,
        (∃ b, s.fetchLatestBackup okIndex okBody pair st st' = .ok (some b) ∧ b.backupID.pair = pair) ∨
        s.fetchLatestBackup okIndex okBody pair st st' = .error .notFound ∨
        (okIndex = false ∧ ∃ e, s.fetchLatestBackup okIndex okBody pair st st' = .error (.fetchingHash pair e)) ∨
        (okBody = false ∧ ∃ h e, s.fetchLatestBackup okIndex okBody pair st st' = .error (.fetchingBackup pair h e))) ∧
    (∀ okBody okIndex r st e, (s.createNewBackup okBody okIndex r st).2 = .error e → ∀ ok key,
      s.index.get ok key (s.createNewBackup okBody okIndex r st).1 = s.index.get ok key st) := by
  refine ⟨fun st hr => ⟨fun pair h hget => ?_, fun st' hl pair okIndex okBody => ?_⟩,
    fun okBody okIndex r st e he ok key => (createNewBackup_call okBody okIndex r st).index_eq he ok key⟩
  · rcases indexed_of_reach hcov hr pair with hnone | ⟨h', b, hget', hb, hpair⟩
    · cases hget.symm.trans hnone
    · cases hget.symm.trans hget'
      exact ⟨b, hb.1, hpair⟩
  · cases okIndex with
    | false =>
      obtain ⟨e, he, hne⟩ := s.index.get_failed (toKey pair) st
      exact .inr (.inr (.inl ⟨rfl, e, by simp only [fetchLatestBackup, he, if_neg hne]⟩))
    | true =>
      rcases indexed_of_reach hcov hr pair with hnone | ⟨h, b, hget, hb, hpair⟩
      · exact .inr (.inl (by simp only [fetchLatestBackup, hnone, if_true]))
      · cases okBody with
        | false =>
          obtain ⟨e, he, hne⟩ := s.backups.get_failed (idHashKey h) st'
          exact .inr (.inr (.inr ⟨rfl, h, e, by simp only [fetchLatestBackup, hget, he, if_neg hne]⟩))
        | true =>
          -- The body may have been replaced since, by one with the same hash.
          obtain ⟨b', hb'⟩ := stored_later hl hb
          refine .inl ⟨b', by simp only [fetchLatestBackup, hget, hb'.1], ?_⟩
          exact (hcov _ hb'.2.2 _ hb.2.2 h hb'.2.1 hb.2.1).trans hpair

/-- The storages of the proxy on Redis, with two results: one backup each of
keys 7 and 8 of one wallet. -/
def redisBackups : BackupService StorageErr (Redis Unit) where
  pkg :=
    { unmarshal data := match data with
        | [7] => .ok (some ⟨⟨1, 7, []⟩, []⟩)
        | [8] => .ok (some ⟨⟨1, 8, []⟩, []⟩)
        | [0] => .ok none
        | _ => .error "not a backup response"
      hash id := .ok (BitVec.ofNat 256 id.keyID.toNat) }
  index := (⟨"backupIndex", .ofTable [7, 8]⟩ : RedisStorage Hash).storage
  backups := (⟨"backups", .ofTable [some ⟨⟨1, 7, []⟩, []⟩, some ⟨⟨1, 8, []⟩, []⟩]⟩ :
    RedisStorage (Option TEEBackupResponse)).storage
  index_unseen := RedisStorage.storage_unseen fun _ _ h =>
    absurd (RedisStorage.prefixed_eq (by decide) (by decide) h).1 (by decide)
  backups_unseen := RedisStorage.storage_unseen fun _ _ h =>
    absurd (RedisStorage.prefixed_eq (by decide) (by decide) h).1 (by decide)

theorem covers_redisBackups : Covers redisBackups.pkg {id | id.walletID = 1 ∧ id.rest = []} := by
  intro i hi j hj h hih hjh
  have hkeys : BitVec.ofNat 256 i.keyID.toNat = BitVec.ofNat 256 j.keyID.toNat :=
    (Except.ok.inj hih).trans (Except.ok.inj hjh).symm
  have hnat := congrArg BitVec.toNat hkeys
  rw [BitVec.toNat_ofNat, BitVec.toNat_ofNat, Nat.mod_eq_of_lt (i.keyID.toNat_lt.trans (by decide)),
    Nat.mod_eq_of_lt (j.keyID.toNat_lt.trans (by decide))] at hnat
  exact congrArg₂ IDPair.mk (hi.1.trans hj.1.symm) (UInt64.toNat_inj.mp hnat)

def resultOf (data : Bytes) : ActionResult := ⟨1, .submit, 1, 0, 0, data⟩

/-- The index write of key 8's backup fails, and a null and a malformed result
come: key 7 has its backup, key 8 none. -/
theorem latest_backup_own_redis :
    ∃ st, Lts.Reach redisBackups.system (redisBackups.Within {id | id.walletID = 1 ∧ id.rest = []}) st ∧
      redisBackups.fetchLatestBackup true true ⟨1, 7⟩ st st = .ok (some ⟨⟨1, 7, []⟩, []⟩) ∧
      redisBackups.fetchLatestBackup true true ⟨1, 8⟩ st st = .error .notFound ∧
      ∃ b, redisBackups.backups.get true (idHashKey 7) st = .ok (some b) ∧ b.backupID.pair = ⟨1, 7⟩ := by
  have hrun : (redisBackups.system.run .empty [⟨resultOf [7], true, true⟩, ⟨resultOf [8], true, false⟩,
      ⟨resultOf [0], true, true⟩, ⟨resultOf [1, 2], true, true⟩]).any (fun st =>
        redisBackups.fetchLatestBackup true true ⟨1, 7⟩ st st = .ok (some ⟨⟨1, 7, []⟩, []⟩) ∧
        redisBackups.fetchLatestBackup true true ⟨1, 8⟩ st st = .error .notFound ∧
        redisBackups.index.get true (toKey ⟨1, 7⟩) st = .ok 7) := by
    decide +kernel
  have hwithin : ∀ st e, redisBackups.Within {id | id.walletID = 1 ∧ id.rest = []} st e := by
    intro st e b hb
    simp only [redisBackups] at hb
    split at hb
    · cases hb; exact ⟨rfl, rfl⟩
    · cases hb; exact ⟨rfl, rfl⟩
    · cases hb
    · cases hb
  obtain ⟨st, hst, hend⟩ := (Option.any_eq_true _ _).mp hrun
  obtain ⟨hseven, height, hindex⟩ := of_decide_eq_true hend
  have hreach : Lts.Reach redisBackups.system (redisBackups.Within {id | id.walletID = 1 ∧ id.rest = []}) st :=
    .of_run (.init fun _ => rfl) (fun e _ st => hwithin st e) hst
  exact ⟨st, hreach, hseven, height,
    ((latest_backup_own redisBackups _ covers_redisBackups).1 st hreach).1 ⟨1, 7⟩ 7 hindex⟩

end BackupService

end TeeProxy.Wallets
