/-
The keys of one Redis. The proxy creates seven stores on it: the bodies of
actions, the three queue lists, the results, the backups and the index of the
latest backups. Each puts its own prefix before a key.

`redis_keys_injective`: no two places collide, so a body, a list, a result, a
backup and an index entry can each be kept by what it is for, as the other
modules do.
-/
import TeeProxy.Queue.ActionQueues
import TeeProxy.Wallets.Backups

namespace TeeProxy

open Queue (ActionSubmissionID)
open Wallets (IDPair TEEBackupResponse)

/-! ## The stores -/

/-- The stores the proxy creates on its Redis. -/
inductive Store
  | actions | directQueue | mainQueue | backupQueue | results | backups | backupIndex
  deriving DecidableEq, Repr

/-- What they are created with. -/
def Store.keyPrefix : Store → String
  | .actions => "Action"
  | .directQueue => "DirectQueue"
  | .mainQueue => "MainQueue"
  | .backupQueue => "BackupQueue"
  | .results => "results"
  | .backups => "backups"
  | .backupIndex => "backupIndex"

def Store.Value : Store → Type
  | .actions => Action
  | .directQueue | .mainQueue | .backupQueue => ActionSubmissionID
  | .results => ActionResponse
  | .backups => Option TEEBackupResponse
  | .backupIndex => Hash

/-- The store as it is created, with the JSON form of its values. -/
def Store.storage (json : ∀ s : Store, Codec s.Value) (s : Store) : RedisStorage s.Value := ⟨s.keyPrefix, json s⟩

/-- The store of a queue's list. -/
def Store.ofQueue : Queue.QueueID → Option Store
  | .main => some .mainQueue
  | .direct => some .directQueue
  | .backup => some .backupQueue
  | .other _ => none

theorem Store.storage_queues (json : ∀ s : Store, Codec s.Value) (j : Queue.Json) :
    (Queue.actions j).keyPrefix = (Store.actions.storage json).keyPrefix ∧
    ∀ q queue, Queue.queueByID j q = .ok queue →
      ∃ s, Store.ofQueue q = some s ∧ queue.keyPrefix = (s.storage json).keyPrefix := by
  refine ⟨rfl, fun q queue hq => ?_⟩
  cases q with
  | main | direct | backup => cases hq; exact ⟨_, rfl, rfl⟩
  | other name => cases hq

theorem Store.keyPrefix_injective : Function.Injective Store.keyPrefix := by
  intro s t h
  cases s <;> cases t <;> first | rfl | exact absurd h (by decide)

theorem Store.separator_not_mem (s : Store) : '-' ∉ s.keyPrefix.toList := by
  cases s <;> decide

/-- **Whatever the logical keys are**, two stores never build the same Redis
key. -/
theorem Store.prefixed_injective {json : ∀ s : Store, Codec s.Value} {s t : Store} {key key' : String}
    (h : (s.storage json).prefixed key = (t.storage json).prefixed key') : s = t ∧ key = key' := by
  obtain ⟨hprefixed, hkey⟩ := RedisStorage.prefixed_eq s.separator_not_mem t.separator_not_mem h
  exact ⟨Store.keyPrefix_injective hprefixed, hkey⟩

/-! ## The places -/

/-- What the proxy keeps on its Redis, by what it is for. -/
inductive Place
  | action (actionID : Hash) (submissionTag : SubmissionTag)
  | directQueue | mainQueue | backupQueue
  | result (actionID : Hash) (submissionTag : SubmissionTag)
  | backup (idHash : Hash)
  | latestBackup (pair : IDPair)
  deriving DecidableEq, Repr

/-- The store a place belongs to. -/
def Place.store : Place → Store
  | .action _ _ => .actions
  | .directQueue => .directQueue
  | .mainQueue => .mainQueue
  | .backupQueue => .backupQueue
  | .result _ _ => .results
  | .backup _ => .backups
  | .latestBackup _ => .backupIndex

/-- The key in its store. A queue's list is under the empty key; bodies and
results are under an ID without attempts. -/
def Place.key : Place → String
  | .action actionID submissionTag | .result actionID submissionTag =>
    ActionSubmissionID.string ⟨actionID, submissionTag, 0⟩
  | .directQueue | .mainQueue | .backupQueue => ""
  | .backup idHash => Wallets.idHashKey idHash
  | .latestBackup pair => Wallets.toKey pair

def Place.redisKey (json : ∀ s : Store, Codec s.Value) (p : Place) : String := (p.store.storage json).prefixed p.key

theorem Place.eq_of_key {p q : Place} (hstore : p.store = q.store) (hkey : p.key = q.key) : p = q := by
  cases p <;> cases q <;> first | rfl | cases hstore
  case action.action | result.result =>
    have hpair := ActionSubmissionID.string_eq_iff.mp hkey
    simp only [ActionSubmissionID.pair, Prod.mk.injEq] at hpair
    rw [hpair.1, hpair.2]
  case backup.backup => exact congrArg Place.backup (Wallets.idHashKey_injective hkey)
  case latestBackup.latestBackup => exact congrArg Place.latestBackup (Wallets.toKey_injective hkey)

/-- **Storage keys never collide.** Over all stores of the proxy and all
logical keys, whatever text, the Redis key determines the store and the
logical key; over everything the proxy keeps, with any action ID, submission
tag, backup hash, wallet ID and key ID, it determines what is kept there; and
an action's key does not depend on its attempts. -/
theorem redis_keys_injective (json : ∀ s : Store, Codec s.Value) :
    (∀ s t : Store, ∀ key key', (s.storage json).prefixed key = (t.storage json).prefixed key' → s = t ∧ key = key') ∧
    Function.Injective (Place.redisKey json) ∧
    ∀ actionID submissionTag attempt attempt',
      ActionSubmissionID.string ⟨actionID, submissionTag, attempt⟩ =
        ActionSubmissionID.string ⟨actionID, submissionTag, attempt'⟩ := by
  refine ⟨fun _ _ _ _ h => Store.prefixed_injective h, fun p q h => ?_, fun _ _ _ _ => ?_⟩
  · obtain ⟨hstore, hkey⟩ := Store.prefixed_injective h
    exact Place.eq_of_key hstore hkey
  · exact ActionSubmissionID.string_eq_iff.mpr rfl

end TeeProxy
