/-
What `Dequeue` reports about its poll (`internal/queue/queue.go`).

The result label of a poll says whether an ID was consumed: `METRICS.md` has
nothing consumed under `dequeue_error` and `cancelled`, and one lost ID under
`error` and `action_not_found`, and alerts go by that. The label is chosen
from the error of the storage, where a failed pop and a popped entry that
cannot be decoded look alike.

Entries are arbitrary bytes here. The storages decode into pointers: the
entry `null` is a nil ID, which `Dequeue` reads at once.
-/
import TeeProxy.Lib.GoPanic
import TeeProxy.Queue.ActionQueues

namespace TeeProxy.Queue

open GoPanic

/-- The JSON forms as the storages read them, `null` as a nil pointer. -/
structure PtrJson where
  action : Codec (Option Action)
  submissionID : Codec (Option ActionSubmissionID)

/-- The `result` label of `action_dequeue_total`. -/
inductive Outcome
  | success | empty | dequeueError | cancelled | error | actionNotFound
  deriving DecidableEq, Repr

/-- What `Dequeue` hands out where the stored body may be null. -/
structure PolledDelivery where
  action : Option Action
  id : ActionSubmissionID
  queueID : QueueID
  deriving DecidableEq, Repr

/-- What a poll leaves: Redis, the label it has reported, and what it returns. -/
structure Polled (γ : Type) where
  redis : Redis γ
  reported : Option Outcome
  result : Except (Fault QueueErr) PolledDelivery

section Dequeue

variable {γ : Type} (p : PtrJson)

/-- The storage of the bodies. -/
def PtrJson.actions : RedisStorage (Option Action) := ⟨"Action", p.action⟩

/-- `queueByID` with entries that may be null. -/
def PtrJson.queueByID : QueueID → Except QueueErr (RedisStorage (Option ActionSubmissionID))
  | .main => .ok ⟨"MainQueue", p.submissionID⟩
  | .direct => .ok ⟨"DirectQueue", p.submissionID⟩
  | .backup => .ok ⟨"BackupQueue", p.submissionID⟩
  | .other _ => .error .invalidQueueID

/-- `Dequeue` from the ID it has taken. -/
def fetchQueued (okGet : Bool) (queueID : QueueID) (r : Redis γ) : Option ActionSubmissionID → Polled γ
  -- `storingID.String()` reads through the pointer
  | none => ⟨r, none, .error .panicked⟩
  | some id => match p.actions.get okGet id.string r with
    | .error .notFound => ⟨r, some .actionNotFound, .error (.err (.notFound id.string))⟩
    | .error e => ⟨r, some .error, .error (.err (.fetching id.string e))⟩
    | .ok action => ⟨r, some .success, .ok ⟨action, id, queueID⟩⟩

/-- The label of an error of the storage's `Dequeue`. -/
def dequeueOutcome : StorageErr → Outcome
  | .emptyQueue => .empty
  | _ => .dequeueError

/-- `Dequeue`, with whether its caller is gone and whether its two commands
succeed. -/
def dequeue (cancelled okPop okGet : Bool) (queueID : QueueID) (r : Redis γ) : Polled γ :=
  match p.queueByID queueID with
  | .error e => ⟨r, none, .error (.err e)⟩
  | .ok queue =>
    if cancelled then ⟨r, some .cancelled, .error (.err (.cancelled queueID))⟩
    else match queue.dequeue okPop r with
      | (r', .error e) => ⟨r', some (dequeueOutcome e), .error (.err (.dequeuing queueID e))⟩
      | (r', .ok (id, _)) => fetchQueued p okGet queueID r' id

end Dequeue

/-- The queues in use, where every entry and every body is non-nil, poll like
this: the two commands of a `Dequeue` with nothing between them. -/
theorem dequeue_of_pop {p : PtrJson} {j : Json} {q : QueueID} {cancelled okPop okGet : Bool} {r r' : Redis Action}
    {id : ActionSubmissionID} {a : Action} {d : Delivery}
    (hids : ∀ b id, j.submissionID.unmarshal b = .ok id → p.submissionID.unmarshal b = .ok (some id))
    (hbodies : ∀ b a, j.action.unmarshal b = .ok a → p.action.unmarshal b = .ok (some a))
    (hpop : popID j cancelled okPop q r = (r', .ok (id, a))) (hfetch : fetchAction j okGet q id r' = .ok d) :
    dequeue p cancelled okPop okGet q r = ⟨r', some .success, .ok ⟨some d.action, d.id, d.queueID⟩⟩ := by
  unfold popID at hpop
  split at hpop
  · cases hpop
  next queue hq =>
  split at hpop
  · cases hpop
  next hnot =>
  split at hpop
  · cases hpop
  next hdeq =>
  cases hpop
  obtain rfl : okPop = true := by
    cases okPop with
    | true => rfl
    | false => cases hdeq
  obtain ⟨l, data, hl, hu, rfl⟩ := RedisStorage.dequeue_ok hdeq
  obtain ⟨rfl, rfl, body, hbody, hb⟩ := fetchAction_ok hfetch
  obtain rfl : okGet = true := by
    cases okGet with
    | true => rfl
    | false => cases hfetch
  obtain ⟨queue', hq', hprefixed, hcodec⟩ : ∃ queue', p.queueByID d.queueID = .ok queue' ∧
      queue'.keyPrefix = queue.keyPrefix ∧ queue'.codec = p.submissionID := by
    cases hqd : d.queueID <;> rw [hqd] at hq <;> cases hq <;> exact ⟨_, rfl, rfl, rfl⟩
  have hname : queue'.prefixed "" = queue.prefixed "" := by rw [RedisStorage.prefixed, RedisStorage.prefixed, hprefixed]
  rw [queueByID_codec hq] at hu
  rw [← hname] at hl
  have hpolled := RedisStorage.dequeue_last hl
  rw [hcodec, hids _ _ hu, hname] at hpolled
  simp only [Except.mapError, Except.map] at hpolled
  have hget : p.actions.get true d.id.string (r.setList (queue.prefixed "") l) = .ok (some d.action) :=
    RedisStorage.get_stored (by rw [RedisStorage.prefixed]; exact hbody) (hbodies _ _ hb)
  simp only [dequeue, hq', if_neg hnot, hpolled, fetchQueued, hget]

/-! ## What a label says -/

section Truth

variable {γ : Type} {p : PtrJson} {q : QueueID} {queue : RedisStorage (Option ActionSubmissionID)} {r : Redis γ}
variable {cancelled okPop okGet : Bool}

/-- The labels of a poll that consumed nothing. -/
def Outcome.consumedNone (o : Option Outcome) : Prop :=
  o = some .empty ∨ o = some .cancelled ∨ o = some .dequeueError

/-- The labels of a poll that consumed an ID. -/
def Outcome.consumedOne (o : Option Outcome) : Prop :=
  o = some .success ∨ o = some .actionNotFound ∨ o = some .error

/-- The label tells what happened to the list: nothing, or its next entry was
taken. -/
def Truthful (before after : List (Bytes × γ)) (reported : Option Outcome) : Prop :=
  (after = before ↔ Outcome.consumedNone reported) ∧
    ((∃ entry, before = after ++ [entry]) ↔ Outcome.consumedOne reported)

theorem truthful_of_unchanged {l : List (Bytes × γ)} {reported : Option Outcome}
    (h : Outcome.consumedNone reported) : Truthful l l reported := by
  refine ⟨iff_of_true rfl h, iff_of_false ?_ ?_⟩
  · rintro ⟨entry, heq⟩; simp at heq
  · rcases h with rfl | rfl | rfl <;> simp [Outcome.consumedOne]

/-- After an entry is taken only the labels of a consumed ID are truthful. -/
theorem truthful_taken_iff {l : List (Bytes × γ)} {entry : Bytes × γ} {reported : Option Outcome} :
    Truthful (l ++ [entry]) l reported ↔ Outcome.consumedOne reported := by
  have hne : l ≠ l ++ [entry] := by simp
  constructor
  · intro h
    exact h.2.mp ⟨entry, rfl⟩
  · intro h
    refine ⟨iff_of_false hne ?_, iff_of_true ⟨entry, rfl⟩ h⟩
    rcases h with rfl | rfl | rfl <;> simp [Outcome.consumedNone]

theorem consumedOne_fetchQueued (id : ActionSubmissionID) :
    Outcome.consumedOne (fetchQueued p okGet q r (some id)).reported := by
  simp only [fetchQueued]
  split <;> simp [Outcome.consumedOne]

theorem redis_fetchQueued (id : Option ActionSubmissionID) : (fetchQueued p okGet q r id).redis = r := by
  unfold fetchQueued
  split
  · rfl
  · split <;> rfl

/-- The label tells the truth unless an entry was taken that is no ID: an entry
that cannot be decoded is reported as a failed pop, a nil one not at all. -/
theorem truthful_pop_iff (hq : p.queueByID q = .ok queue) {l : List (Bytes × γ)} {entry : Bytes × γ}
    (hl : r.list (queue.prefixed "") = l ++ [entry]) :
    Truthful (r.list (queue.prefixed "")) ((dequeue p false true okGet q r).redis.list (queue.prefixed ""))
        (dequeue p false true okGet q r).reported ↔
      ∃ id, p.submissionID.unmarshal entry.1 = .ok (some id) := by
  have hcodec : queue.codec = p.submissionID := by cases q <;> cases hq <;> rfl
  have hpop := RedisStorage.dequeue_last hl
  rw [hcodec] at hpop
  cases hu : p.submissionID.unmarshal entry.1 with
  | error e =>
    rw [hu] at hpop
    simp only [Except.mapError, Except.map] at hpop
    simp only [dequeue, hq, hpop, Bool.false_eq_true, if_false, Redis.list_setList, hl, truthful_taken_iff,
      dequeueOutcome]
    simp [Outcome.consumedOne]
  | ok t =>
    rw [hu] at hpop
    simp only [Except.mapError, Except.map] at hpop
    simp only [dequeue, hq, hpop, Bool.false_eq_true, if_false, redis_fetchQueued, Redis.list_setList, hl,
      truthful_taken_iff]
    cases t with
    | none => simp [fetchQueued, Outcome.consumedOne]
    | some id => exact iff_of_true (consumedOne_fetchQueued id) ⟨id, rfl⟩

/-- **When the label of a poll tells whether an ID was consumed**: the caller
was gone, the pop failed, or the next entry of the list, if there is one,
decodes to an ID. -/
theorem dequeue_truthful_iff (hq : p.queueByID q = .ok queue) :
    Truthful (r.list (queue.prefixed "")) ((dequeue p cancelled okPop okGet q r).redis.list (queue.prefixed ""))
        (dequeue p cancelled okPop okGet q r).reported ↔
      cancelled = true ∨ okPop = false ∨
        ∀ entry, (r.list (queue.prefixed "")).getLast? = some entry →
          ∃ id, p.submissionID.unmarshal entry.1 = .ok (some id) := by
  cases cancelled with
  | true =>
    refine iff_of_true ?_ (.inl rfl)
    simp only [dequeue, hq, if_true]
    exact truthful_of_unchanged (.inr (.inl rfl))
  | false =>
  cases okPop with
  | false =>
    refine iff_of_true ?_ (.inr (.inl rfl))
    simp only [dequeue, hq, RedisStorage.dequeue, Redis.rPop, Bool.false_eq_true, if_false, dequeueOutcome]
    exact truthful_of_unchanged (.inr (.inr rfl))
  | true =>
  rcases List.eq_nil_or_concat (r.list (queue.prefixed "")) with hnil | ⟨l, entry, hl⟩
  · refine iff_of_true ?_ (.inr (.inr fun entry hentry => by rw [hnil] at hentry; cases hentry))
    have hempty : queue.dequeue true r = (r, .error .emptyQueue) := by
      simp [RedisStorage.dequeue, Redis.rPop, hnil]
    simp only [dequeue, hq, hempty, Bool.false_eq_true, if_false, dequeueOutcome]
    exact truthful_of_unchanged (.inl rfl)
  · rw [truthful_pop_iff hq (by simpa using hl), hl]
    simp

end Truth

/-! ## Small lists -/

/-- JSON forms of one ID and of `null`. -/
def PtrJson.one : PtrJson where
  action := .ofTable []
  submissionID := .ofTable [none, some ⟨1, .submit, 0⟩]

def mainQueue : RedisStorage (Option ActionSubmissionID) := ⟨"MainQueue", PtrJson.one.submissionID⟩

/-- Redis with a main queue of one entry. -/
def oneEntry (data : Bytes) : Redis Unit := Redis.empty.setList (mainQueue.prefixed "") [(data, ())]

theorem dequeue_truthful_readable :
    Truthful ((oneEntry [1]).list (mainQueue.prefixed ""))
      ((dequeue .one false true true .main (oneEntry [1])).redis.list (mainQueue.prefixed ""))
      (dequeue .one false true true .main (oneEntry [1])).reported := by
  have hq : PtrJson.one.queueByID .main = .ok mainQueue := rfl
  refine (dequeue_truthful_iff hq).mpr (.inr (.inr fun entry hentry => ⟨⟨1, .submit, 0⟩, ?_⟩))
  rw [oneEntry, Redis.list_setList] at hentry
  cases hentry
  rfl

/-- An entry that cannot be decoded is gone and reported as a failed pop; a
`null` is gone and the poll panics before it reports anything. -/
theorem dequeue_untruthful :
    (dequeue .one false true true .main (oneEntry [9])).reported = some .dequeueError ∧
    (dequeue .one false true true .main (oneEntry [9])).redis.list (mainQueue.prefixed "") = [] ∧
    (oneEntry [9]).list (mainQueue.prefixed "") = [([9], ())] ∧
    (dequeue .one false true true .main (oneEntry [0])).reported = none ∧
    (dequeue .one false true true .main (oneEntry [0])).result = .error .panicked ∧
    (dequeue .one false true true .main (oneEntry [0])).redis.list (mainQueue.prefixed "") = [] := by
  decide +kernel

end TeeProxy.Queue
