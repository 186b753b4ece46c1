/-
The action queues (`internal/queue/queue.go`) and one queue in use.

An action's body is stored under its action ID and submission tag; the
queue's list holds only that ID, with the number of deliveries attempted.
`Enqueue` writes the body and then the ID, `Dequeue` takes the ID and then
reads the body, so other calls run between the two commands of a call: each
command is a step of its own, and either succeeds or fails without effect.

The action an ID was pushed for goes with it through the list, the fetch and
the delivery, as history: no outcome depends on it.
-/
import TeeProxy.Lib.Hex
import TeeProxy.Lib.Lts
import TeeProxy.RedisStorage

namespace TeeProxy.Queue

/-! ## Submission IDs -/

/-- What tells actions apart: the action ID and the submission tag. -/
abbrev Pair := Hash × SubmissionTag

structure ActionSubmissionID where
  actionID : Hash
  submissionTag : SubmissionTag
  attempt : UInt8
  deriving DecidableEq, Repr

/-- An entry without its count of deliveries. -/
def ActionSubmissionID.pair (id : ActionSubmissionID) : Pair := (id.actionID, id.submissionTag)

/-- `String`. The hash prints as `0x` and 64 digits. -/
def ActionSubmissionID.string (id : ActionSubmissionID) : String :=
  Hex.text 64 id.actionID.toNat ++ ":" ++ id.submissionTag

/-- The ID `Enqueue` gives an action. -/
def submissionID (a : Action) : ActionSubmissionID := ⟨a.data.id, a.data.submissionTag, 0⟩

/-- The pair an action is stored under. -/
def pairOf (a : Action) : Pair := (submissionID a).pair

/-- The action has the pair of one of the others. -/
def SharesPair (a : Action) (others : List Action) : Prop := pairOf a ∈ others.map pairOf

instance (a : Action) (others : List Action) : Decidable (SharesPair a others) := by
  unfold SharesPair; infer_instance

/-- The string tells the pair, and nothing of the attempts. -/
theorem ActionSubmissionID.string_eq_iff {id id' : ActionSubmissionID} :
    id.string = id'.string ↔ id.pair = id'.pair := by
  constructor
  · intro h
    unfold string at h
    rw [String.append_assoc, String.append_assoc] at h
    obtain ⟨hid, htag⟩ := Hex.text_append_injective id.actionID.isLt id'.actionID.isLt h
    exact Prod.ext (BitVec.eq_of_toNat_eq hid) ((String.append_right_inj _).mp htag)
  · intro h
    simp only [pair, Prod.mk.injEq] at h
    rw [string, string, h.1, h.2]

/-- `DirectInstructionToAction`, of a random ID and the JSON form of the
instruction. -/
def directInstructionToAction (id : Except PkgErr Hash) (dim : Except PkgErr Bytes) : Except PkgErr Action :=
  match id with
  | .error e => .error e
  | .ok id => match dim with
    | .error e => .error e
    | .ok dim => .ok ⟨⟨id, .direct, .submit, dim⟩, [], [], [], []⟩

theorem directInstructionToAction_ok {id : Except PkgErr Hash} {dim : Except PkgErr Bytes} {a : Action}
    (h : directInstructionToAction id dim = .ok a) : id = .ok a.data.id ∧ a.data.submissionTag = .submit := by
  unfold directInstructionToAction at h
  split at h
  · cases h
  split at h
  · cases h
  · cases h; exact ⟨rfl, rfl⟩

theorem directInstructionToAction_message {id : Except PkgErr Hash} {dim : Except PkgErr Bytes} {a : Action}
    (h : directInstructionToAction id dim = .ok a) : dim = .ok a.data.message := by
  unfold directInstructionToAction at h
  split at h
  · cases h
  split at h
  · cases h
  · cases h; rfl

/-! ## The queues -/

/-- `processorutils.QueueID`: three names are queues. -/
inductive QueueID
  | main | direct | backup
  | other (name : String)
  deriving DecidableEq, Repr

/-- The JSON forms of what the queues store. -/
structure Json where
  action : Codec Action
  submissionID : Codec ActionSubmissionID

inductive QueueErr
  | invalidQueueID
  | storingAction (e : StorageErr)
  | enqueueing (queueID : QueueID) (e : StorageErr)
  | cancelled (queueID : QueueID)
  | dequeuing (queueID : QueueID) (e : StorageErr)
  | notFound (id : String)
  | fetching (id : String) (e : StorageErr)
  | removing (id : String) (e : StorageErr)
  | deliveryExhausted (id : String)
  | requeueing (id : String) (e : StorageErr)
  deriving DecidableEq, Repr

def maxDeliveryAttempts : UInt8 := 5

section

variable (j : Json)

/-- The storage of the bodies. -/
def actions : RedisStorage Action := ⟨"Action", j.action⟩

def queueByID : QueueID → Except QueueErr (RedisStorage ActionSubmissionID)
  | .main => .ok ⟨"MainQueue", j.submissionID⟩
  | .direct => .ok ⟨"DirectQueue", j.submissionID⟩
  | .backup => .ok ⟨"BackupQueue", j.submissionID⟩
  | .other _ => .error .invalidQueueID

/-- `Enqueue` up to its write of the body. -/
def storeAction (ok : Bool) (queueID : QueueID) (a : Action) (r : Redis Action) : Except QueueErr (Redis Action) :=
  match queueByID j queueID with
  | .error e => .error e
  | .ok _ => match (actions j).setWithTTL ok (submissionID a).string a r with
    | .error e => .error (.storingAction e)
    | .ok r' => .ok r'

/-- `Enqueue` after it: the ID goes to the queue. -/
def pushID (ok : Bool) (queueID : QueueID) (a : Action) (r : Redis Action) : Except QueueErr (Redis Action) :=
  match queueByID j queueID with
  | .error e => .error e
  | .ok queue => match queue.enqueue ok (submissionID a) a r with
    | .error e => .error (.enqueueing queueID e)
    | .ok r' => .ok r'

/-- `Dequeue` up to its take of the next ID. A cancelled caller takes none. -/
def popID (cancelled ok : Bool) (queueID : QueueID) (r : Redis Action) :
    Redis Action × Except QueueErr (ActionSubmissionID × Action) :=
  match queueByID j queueID with
  | .error e => (r, .error e)
  | .ok queue =>
    if cancelled then (r, .error (.cancelled queueID))
    else match queue.dequeue ok r with
      | (r', .error e) => (r', .error (.dequeuing queueID e))
      | (r', .ok id) => (r', .ok id)

structure Delivery where
  action : Action
  id : ActionSubmissionID
  queueID : QueueID
  deriving DecidableEq, Repr

/-- `Dequeue` after it: the body is read. -/
def fetchAction (ok : Bool) (queueID : QueueID) (id : ActionSubmissionID) (r : Redis Action) :
    Except QueueErr Delivery :=
  match (actions j).get ok id.string r with
  | .error .notFound => .error (.notFound id.string)
  | .error e => .error (.fetching id.string e)
  | .ok action => .ok ⟨action, id, queueID⟩

/-- `Commit`: the body is removed. -/
def Delivery.commit (d : Delivery) (ok : Bool) (r : Redis Action) : Except QueueErr (Redis Action) :=
  match (actions j).remove ok d.id.string r with
  | .error e => .error (.removing d.id.string e)
  | .ok r' => .ok r'

/-- The removal of a body whose attempts are spent is best effort. -/
def Delivery.restore (d : Delivery) (ok : Bool) (origin : Action) (r : Redis Action) :
    Redis Action × Except QueueErr Unit :=
  let next := { d.id with attempt := d.id.attempt + 1 }
  if next.attempt ≥ maxDeliveryAttempts then
    let r' := match (actions j).remove ok d.id.string r with
      | .error _ => r
      | .ok r' => r'
    (r', .error (.deliveryExhausted d.id.string))
  else match queueByID j d.queueID with
    | .error e => (r, .error e)
    | .ok queue => match queue.requeue ok next origin r with
      | .error e => (r, .error (.requeueing d.id.string e))
      | .ok r' => (r', .ok ())

/-! ## One queue in use -/

/-- Redis, the calls between two commands, the deliveries waiting for their
`Commit` or `Restore`, and what the calls returned: the actions enqueued,
the deliveries handed out, committed and given up, and the IDs taken whose
body could not be fetched. -/
structure State where
  redis : Redis Action
  pushing : List Action
  fetching : List (ActionSubmissionID × Action)
  inFlight : List (Delivery × Action)
  enqueued : List Action
  handed : List (Delivery × Action)
  committed : List (Delivery × Action)
  givenUp : List (Delivery × Action)
  unfetched : List (ActionSubmissionID × Action)

/-- A call of a queue, or its next command. -/
inductive Event
  | enqueue (a : Action) (ok : Bool)
  | push (n : Nat) (ok : Bool)
  | dequeue (cancelled ok : Bool)
  | fetch (n : Nat) (ok : Bool)
  | commit (n : Nat) (ok : Bool)
  | restore (n : Nat) (ok : Bool)

variable (q : QueueID)

/-- The commands of a call are steps of their own, and any of them may fail. -/
def step (s : State) : Event → Option State
  | .enqueue a ok =>
    match storeAction j ok q a s.redis with
    | .error _ => some s
    | .ok redis => some { s with redis, pushing := s.pushing ++ [a] }
  | .push n ok =>
    match s.pushing[n]? with
    | none => none
    | some a =>
      match pushID j ok q a s.redis with
      | .error _ => some { s with pushing := s.pushing.eraseIdx n }
      | .ok redis => some { s with redis, pushing := s.pushing.eraseIdx n, enqueued := s.enqueued ++ [a] }
  | .dequeue cancelled ok =>
    match popID j cancelled ok q s.redis with
    | (redis, .error _) => some { s with redis }
    | (redis, .ok x) => some { s with redis, fetching := s.fetching ++ [x] }
  | .fetch n ok =>
    match s.fetching[n]? with
    | none => none
    | some (id, a) =>
      match fetchAction j ok q id s.redis with
      | .error _ => some { s with fetching := s.fetching.eraseIdx n, unfetched := s.unfetched ++ [(id, a)] }
      | .ok d => some { s with
          fetching := s.fetching.eraseIdx n
          inFlight := s.inFlight ++ [(d, a)]
          handed := s.handed ++ [(d, a)] }
  | .commit n ok =>
    match s.inFlight[n]? with
    | none => none
    | some (d, a) =>
      let redis := match d.commit j ok s.redis with
        | .error _ => s.redis
        | .ok redis => redis
      some { s with redis, inFlight := s.inFlight.eraseIdx n, committed := s.committed ++ [(d, a)] }
  | .restore n ok =>
    match s.inFlight[n]? with
    | none => none
    | some (d, a) =>
      match d.restore j ok a s.redis with
      | (redis, .ok ()) => some { s with redis, inFlight := s.inFlight.eraseIdx n }
      | (redis, .error _) =>
        some { s with redis, inFlight := s.inFlight.eraseIdx n, givenUp := s.givenUp ++ [(d, a)] }

def start : State := ⟨.empty, [], [], [], [], [], [], [], []⟩

def system : Lts.System State Event where
  init s := s = start
  step := step j q

end

/-! ## What a call does to Redis -/

/-- Where an action's body is stored. -/
def bodyKey (id : ActionSubmissionID) : String := "Action" ++ "-" ++ id.string

theorem bodyKey_eq_iff {id id' : ActionSubmissionID} : bodyKey id = bodyKey id' ↔ id.pair = id'.pair := by
  rw [bodyKey, bodyKey, String.append_right_inj, ActionSubmissionID.string_eq_iff]

theorem prefixed_actions (j : Json) (id : ActionSubmissionID) : (actions j).prefixed id.string = bodyKey id := by
  unfold RedisStorage.prefixed actions bodyKey
  rfl

/-- The queue's list: the IDs, as stored, each with the action it was pushed
for. -/
def queueList (j : Json) (q : QueueID) (r : Redis Action) : List (Bytes × Action) :=
  match queueByID j q with
  | .ok queue => r.list (queue.prefixed "")
  | .error _ => []

section Calls

variable {j : Json} {q : QueueID} {r r' : Redis Action} {ok : Bool} {a : Action}

theorem queueByID_codec {queue : RedisStorage ActionSubmissionID} (h : queueByID j q = .ok queue) :
    queue.codec = j.submissionID := by
  cases q <;> cases h <;> rfl

theorem queueList_setList {queue : RedisStorage ActionSubmissionID} (h : queueByID j q = .ok queue)
    (l : List (Bytes × Action)) : queueList j q (r.setList (queue.prefixed "") l) = l := by
  simp only [queueList, h, Redis.list_setList]

theorem queueList_eq {queue : RedisStorage ActionSubmissionID} (h : queueByID j q = .ok queue) :
    r.list (queue.prefixed "") = queueList j q r := by
  simp only [queueList, h]

@[simp] theorem queueList_values (values : GoMap String Bytes) :
    queueList j q { r with values } = queueList j q r := rfl

theorem storeAction_ok (h : storeAction j ok q a r = .ok r') :
    ∃ data, j.action.marshal a = .ok data ∧ r' = { r with values := r.values.set (bodyKey (submissionID a)) data } := by
  unfold storeAction at h
  split at h
  · cases h
  split at h
  · cases h
  next hs =>
    cases h
    have hset := RedisStorage.setWithTTL_ok hs
    rw [prefixed_actions] at hset
    exact hset

theorem pushID_ok (h : pushID j ok q a r = .ok r') :
    ∃ data, j.submissionID.marshal (submissionID a) = .ok data ∧ r'.values = r.values ∧
      queueList j q r' = (data, a) :: queueList j q r := by
  unfold pushID at h
  split at h
  · cases h
  next queue hq =>
  split at h
  · cases h
  next hp =>
  cases h
  obtain ⟨data, hd, rfl⟩ := RedisStorage.enqueue_ok hp
  rw [queueByID_codec hq] at hd
  exact ⟨data, hd, rfl, by rw [queueList_setList hq, queueList_eq hq]⟩

theorem popID_ok {cancelled : Bool} {id : ActionSubmissionID} (h : popID j cancelled ok q r = (r', .ok (id, a))) :
    ∃ l data, queueList j q r = l ++ [(data, a)] ∧ j.submissionID.unmarshal data = .ok id ∧ r'.values = r.values ∧
      queueList j q r' = l := by
  unfold popID at h
  split at h
  · cases h
  next queue hq =>
  split at h
  · cases h
  split at h
  · cases h
  next hp =>
  cases h
  obtain ⟨l, data, hl, hu, rfl⟩ := RedisStorage.dequeue_ok hp
  rw [queueByID_codec hq] at hu
  rw [queueList_eq hq] at hl
  exact ⟨l, data, hl, hu, rfl, queueList_setList hq l⟩

theorem popID_error {cancelled : Bool} {e : QueueErr} (h : popID j cancelled ok q r = (r', .error e)) :
    r' = r ∨ ∃ l data a e', queueList j q r = l ++ [(data, a)] ∧ j.submissionID.unmarshal data = .error e' := by
  unfold popID at h
  split at h
  · cases h; exact .inl rfl
  next queue hq =>
  split at h
  · cases h; exact .inl rfl
  split at h
  next hp =>
    cases h
    rcases RedisStorage.dequeue_error hp with rfl | ⟨l, data, tag, e', hl, hu⟩
    · exact .inl rfl
    · rw [queueByID_codec hq] at hu
      rw [queueList_eq hq] at hl
      exact .inr ⟨l, data, tag, e', hl, hu⟩
  next => cases h

theorem fetchAction_ok {id : ActionSubmissionID} {d : Delivery} (h : fetchAction j ok q id r = .ok d) :
    d.id = id ∧ d.queueID = q ∧
      ∃ data, r.values.get? (bodyKey id) = some data ∧ j.action.unmarshal data = .ok d.action := by
  unfold fetchAction at h
  split at h
  · cases h
  · cases h
  next hg =>
    cases h
    have hget := RedisStorage.get_ok hg
    rw [prefixed_actions] at hget
    exact ⟨rfl, rfl, hget⟩

theorem fetchAction_stored {id : ActionSubmissionID} {data : Bytes} (hd : r.values.get? (bodyKey id) = some data)
    (hu : j.action.unmarshal data = .ok a) : fetchAction j true q id r = .ok ⟨a, id, q⟩ := by
  rw [← prefixed_actions j] at hd
  have hg : (actions j).get true id.string r = .ok a := RedisStorage.get_stored hd hu
  simp only [fetchAction, hg]

/-- The ways a call can leave the bodies that removes one: it did, or its
removal failed. -/
def Removed (id : ActionSubmissionID) (r r' : Redis Action) : Prop :=
  r' = r ∨ r' = { r with values := r.values.delete (bodyKey id) }

theorem Removed.queueList_eq {id : ActionSubmissionID} (h : Removed id r r') : queueList j q r' = queueList j q r := by
  rcases h with rfl | rfl <;> rfl

theorem Removed.of_remove {id : ActionSubmissionID} (hr : (actions j).remove ok id.string r = .ok r') :
    Removed id r r' := by
  have hremove := RedisStorage.remove_ok hr
  rw [prefixed_actions] at hremove
  exact .inr hremove

theorem removed_commit (d : Delivery) :
    Removed d.id r (match d.commit j ok r with | .error _ => r | .ok r' => r') := by
  unfold Delivery.commit
  cases hr : (actions j).remove ok d.id.string r with
  | error e => exact .inl rfl
  | ok r' => exact .of_remove hr

theorem restore_ok {d : Delivery} (h : d.restore j ok a r = (r', .ok ())) :
    d.id.attempt + 1 < maxDeliveryAttempts ∧
      ∃ data, j.submissionID.marshal { d.id with attempt := d.id.attempt + 1 } = .ok data ∧ r'.values = r.values ∧
        queueList j d.queueID r' = queueList j d.queueID r ++ [(data, a)] := by
  unfold Delivery.restore at h
  dsimp only at h
  split at h
  · cases h
  next hlt =>
  split at h
  · cases h
  next queue hq =>
  split at h
  · cases h
  next hp =>
  cases h
  obtain ⟨data, hd, rfl⟩ := RedisStorage.requeue_ok hp
  rw [queueByID_codec hq] at hd
  exact ⟨by simpa using hlt, data, hd, rfl, by rw [queueList_setList hq, queueList_eq hq]⟩

theorem restore_error {d : Delivery} {e : QueueErr} (h : d.restore j ok a r = (r', .error e)) :
    Removed d.id r r' := by
  unfold Delivery.restore at h
  dsimp only at h
  split at h
  · split at h
    · cases h; exact .inl rfl
    next hr => cases h; exact .of_remove hr
  split at h
  · cases h; exact .inl rfl
  split at h
  · cases h; exact .inl rfl
  · cases h

end Calls

/-! ## What a step can do -/

section Inversion

variable {j : Json} {q : QueueID}

/-- **Everything a step can do.** -/
inductive Step (j : Json) (q : QueueID) (s : State) : Event → State → Prop
  | refused {a ok} : Step j q s (.enqueue a ok) s
  | stored {a ok data} : j.action.marshal a = .ok data →
      Step j q s (.enqueue a ok) { s with
        redis := { s.redis with values := s.redis.values.set (bodyKey (submissionID a)) data }
        pushing := s.pushing ++ [a] }
  | unpushed {n ok a} : s.pushing[n]? = some a →
      Step j q s (.push n ok) { s with pushing := s.pushing.eraseIdx n }
  | pushed {n ok a data redis} : s.pushing[n]? = some a → j.submissionID.marshal (submissionID a) = .ok data →
      redis.values = s.redis.values → queueList j q redis = (data, a) :: queueList j q s.redis →
      Step j q s (.push n ok) { s with redis, pushing := s.pushing.eraseIdx n, enqueued := s.enqueued ++ [a] }
  | untaken {cancelled ok} : Step j q s (.dequeue cancelled ok) s
  | unreadable {cancelled ok l data a e redis} : queueList j q s.redis = l ++ [(data, a)] →
      j.submissionID.unmarshal data = .error e → Step j q s (.dequeue cancelled ok) { s with redis }
  | taken {cancelled ok l data id a redis} : queueList j q s.redis = l ++ [(data, a)] →
      j.submissionID.unmarshal data = .ok id → redis.values = s.redis.values → queueList j q redis = l →
      Step j q s (.dequeue cancelled ok) { s with redis, fetching := s.fetching ++ [(id, a)] }
  | unfetched {n ok id a} : s.fetching[n]? = some (id, a) → (∀ d, fetchAction j ok q id s.redis ≠ .ok d) →
      Step j q s (.fetch n ok) { s with
        fetching := s.fetching.eraseIdx n, unfetched := s.unfetched ++ [(id, a)] }
  | fetched {n ok id a data} {d : Delivery} : s.fetching[n]? = some (id, a) → d.id = id → d.queueID = q →
      s.redis.values.get? (bodyKey id) = some data → j.action.unmarshal data = .ok d.action →
      Step j q s (.fetch n ok) { s with
        fetching := s.fetching.eraseIdx n, inFlight := s.inFlight ++ [(d, a)], handed := s.handed ++ [(d, a)] }
  | committed {n ok redis a} {d : Delivery} : s.inFlight[n]? = some (d, a) → Removed d.id s.redis redis →
      Step j q s (.commit n ok) { s with
        redis, inFlight := s.inFlight.eraseIdx n, committed := s.committed ++ [(d, a)] }
  | givenUp {n ok redis a} {d : Delivery} : s.inFlight[n]? = some (d, a) → Removed d.id s.redis redis →
      Step j q s (.restore n ok) { s with
        redis, inFlight := s.inFlight.eraseIdx n, givenUp := s.givenUp ++ [(d, a)] }
  | requeued {n ok redis a data} {d : Delivery} : s.inFlight[n]? = some (d, a) →
      d.id.attempt + 1 < maxDeliveryAttempts →
      j.submissionID.marshal { d.id with attempt := d.id.attempt + 1 } = .ok data →
      redis.values = s.redis.values → queueList j d.queueID redis = queueList j d.queueID s.redis ++ [(data, a)] →
      Step j q s (.restore n ok) { s with redis, inFlight := s.inFlight.eraseIdx n }

theorem step_inv {s s' : State} {e : Event} (h : step j q s e = some s') : Step j q s e s' := by
  cases e with
  | enqueue a ok =>
    simp only [step] at h
    split at h
    · cases h; exact .refused
    next hs =>
      cases h
      obtain ⟨data, hd, rfl⟩ := storeAction_ok hs
      exact .stored hd
  | push n ok =>
    simp only [step] at h
    split at h
    · cases h
    next a hn =>
    split at h
    · cases h; exact .unpushed hn
    next hp =>
      cases h
      obtain ⟨data, hd, hv, hl⟩ := pushID_ok hp
      exact .pushed hn hd hv hl
  | dequeue cancelled ok =>
    simp only [step] at h
    split at h
    next hp =>
      cases h
      rcases popID_error hp with rfl | ⟨l, data, a, e', hl, hu⟩
      · exact .untaken
      · exact .unreadable hl hu
    next id hp =>
      cases h
      obtain ⟨l, data, hl, hu, hv, hl'⟩ := popID_ok hp
      exact .taken hl hu hv hl'
  | fetch n ok =>
    simp only [step] at h
    split at h
    · cases h
    next id a hn =>
    split at h
    next hf =>
      cases h
      exact .unfetched hn fun d hd => by rw [hf] at hd; cases hd
    next d hf =>
      cases h
      obtain ⟨hid, hq, data, hd, hu⟩ := fetchAction_ok hf
      exact .fetched hn hid hq hd hu
  | commit n ok =>
    simp only [step] at h
    split at h
    · cases h
    next d a hn => cases h; exact .committed hn (removed_commit d)
  | restore n ok =>
    simp only [step] at h
    split at h
    · cases h
    next d a hn =>
    split at h
    next hr =>
      cases h
      obtain ⟨hlt, data, hd, hv, hl⟩ := restore_ok hr
      exact .requeued hn hlt hd hv hl
    next hr => cases h; exact .givenUp hn (restore_error hr)

end Inversion

end TeeProxy.Queue
