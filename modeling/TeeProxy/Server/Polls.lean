/-
The node's polls (`queueH` and `undelivered` of `internal/server/internal.go`)
over the three queues.

A poll takes an action off its queue and then writes it to the node. If the
node is gone, or the write or the flush fails, the action goes back to the
queue, or is lost where `Restore` gives it up, and the poll's error says which.
If the flush succeeds the delivery is committed. Polls of all queues run at the
same time, and so do the calls that enqueue; the steps of a poll are the two
commands of its `Dequeue` and the rest of the handler, which has one command.

Whether an action arrived whole at the node although its write failed is not
known to the proxy; the runs here have both cases.
-/
import TeeProxy.Queue.Shared

namespace TeeProxy.Server.Polls

open Queue (QueueID QueueErr Delivery Json Shared Distinct AllDistinct pairOf submissionID maxDeliveryAttempts)

/-! ## The handler -/

/-- The outcome `undelivered` puts in its error. -/
inductive Outcome
  | requeued | lost
  deriving DecidableEq, Repr

/-- What a poll answers: the JSON `null` for an empty queue, the error of
`Dequeue`, the action, or the error of `undelivered`, which names the action. -/
inductive Answer
  | null
  | invalidQueueID
  | dequeueFailed (e : QueueErr)
  | action (a : Action)
  | undelivered (a : Action) (outcome : Outcome) (cause : PkgErr)
  deriving DecidableEq, Repr

/-- The answer to an error of `Dequeue`. -/
def dequeueAnswer : QueueErr → Answer
  | .dequeuing _ .emptyQueue => .null
  | e => .dequeueFailed e

/-- A command of `Dequeue` ends the poll if it fails. -/
def endedBy {α : Type} : Except QueueErr α → List Answer
  | .error e => [dequeueAnswer e]
  | .ok _ => []

/-- The first of the three that fails: the caller, the encoder, the flush. -/
def sendErr (ctx encode flush : Option PkgErr) : Option PkgErr := ctx.or (encode.or flush)

/-- The answer of `undelivered`, and what it adds to
`finalized_action_lost_total{reason="send_failed"}`. -/
def undelivered (queueID : QueueID) (a : Action) (cause : PkgErr) : Except QueueErr Unit → Answer × Nat
  | .ok () => (.undelivered a .requeued cause, 0)
  | .error _ => (.undelivered a .lost cause, if queueID = .main then 1 else 0)

/-! ## The system -/

/-- The queues; for each queue what its polls have answered and which actions
arrived at the node whole, in order; and the counter of lost finalized
actions. -/
structure State where
  queues : Shared
  answers : QueueID → List Answer
  node : QueueID → List Action
  lost : Nat

/-- `enqueue` and `push` are the commands of an `Enqueue`, `poll` and `fetch`
those of a poll's `Dequeue`. `respond` is the rest of the poll of the `n`-th
delivery in flight: how its context, the encoder and the flush end, whether
the action arrived if they fail, and whether the command of `Commit` or
`Restore` succeeds. -/
inductive Event
  | enqueue (q : QueueID) (a : Action) (ok : Bool)
  | push (q : QueueID) (n : Nat) (ok : Bool)
  | poll (q : QueueID) (cancelled ok : Bool)
  | fetch (q : QueueID) (n : Nat) (ok : Bool)
  | respond (q : QueueID) (n : Nat) (ctx encode flush : Option PkgErr) (arrived ok : Bool)

/-- A step of the queue `q`, what its poll answers and what arrives. -/
def State.record (s : State) (q : QueueID) (t : Queue.State) (answers : List Answer) (arrived : List Action)
    (lost : Nat) : State where
  queues := s.queues.put q t
  answers := Function.update s.answers q (s.answers q ++ answers)
  node := Function.update s.node q (s.node q ++ arrived)
  lost := s.lost + lost

section System

variable (j : Json)

/-- The rest of a poll once `Dequeue` has returned. -/
def respond (s : State) (q : QueueID) (n : Nat) (cause : Option PkgErr) (arrived ok : Bool) : Option State :=
  match (s.queues.queue q).inFlight[n]? with
  | none => none
  | some (d, origin) => match cause with
    | some cause =>
      let (answer, lost) := undelivered q d.action cause (d.restore j ok origin s.queues.redis).2
      (Queue.step j q (s.queues.queue q) (.restore n ok)).map fun t =>
        s.record q t [answer] (if arrived then [d.action] else []) lost
    | none => (Queue.step j q (s.queues.queue q) (.commit n ok)).map fun t =>
        s.record q t [.action d.action] [d.action] 0

/-- A poll takes an action, writes it to the node and commits or restores it. -/
def step (s : State) : Event → Option State
  | .enqueue q a ok => (Queue.step j q (s.queues.queue q) (.enqueue a ok)).map fun t => s.record q t [] [] 0
  | .push q n ok => (Queue.step j q (s.queues.queue q) (.push n ok)).map fun t => s.record q t [] [] 0
  | .poll (.other name) _ _ => some { s with
      answers := Function.update s.answers (.other name) (s.answers (.other name) ++ [.invalidQueueID]) }
  | .poll q cancelled ok =>
    (Queue.step j q (s.queues.queue q) (.dequeue cancelled ok)).map fun t =>
      s.record q t (endedBy (Queue.popID j cancelled ok q s.queues.redis).2) [] 0
  | .fetch q n ok => match (s.queues.queue q).fetching[n]? with
    | none => none
    | some (id, _) => (Queue.step j q (s.queues.queue q) (.fetch n ok)).map fun t =>
        s.record q t (endedBy (Queue.fetchAction j ok q id s.queues.redis)) [] 0
  -- a caller that was gone before the first byte gets nothing
  | .respond q n ctx encode flush arrived ok =>
    respond j s q n (sendErr ctx encode flush) (arrived && ctx.isNone) ok

/-- Nothing is queued and nothing answered. -/
def start : State := ⟨.start, fun _ => [], fun _ => [], 0⟩

/-- The polls of the internal server on the queues. -/
def system : Lts.System State Event where
  init s := s = start
  step := step j

/-- No two actions share their pair. -/
def Apart (s : State) : Event → Prop
  | .enqueue q a ok => AllDistinct s.queues (q, .enqueue a ok)
  | _ => True

instance (s : State) : DecidablePred (Apart s)
  | .enqueue q a ok => inferInstanceAs (Decidable (AllDistinct s.queues (q, .enqueue a ok)))
  | .push .. | .poll .. | .fetch .. | .respond .. => .isTrue trivial

end System

/-! ## What the answers say -/

namespace Answer

/-- The action the node got. -/
def sent? : Answer → Option Action
  | .action a => some a
  | _ => none

/-- The action reported as not delivered. -/
def undelivered? : Answer → Option Action
  | .undelivered a _ _ => some a
  | _ => none

/-- The action reported as lost. -/
def lost? : Answer → Option Action
  | .undelivered a .lost _ => some a
  | _ => none

/-- The ID reported as taken off the queue without its action. -/
def missed? : Answer → Option String
  | .dequeueFailed (.notFound id) | .dequeueFailed (.fetching id _) => some id
  | _ => none

end Answer

def sentIn (l : List Answer) : List Action := l.filterMap Answer.sent?

/-- The actions reported undelivered. -/
def undeliveredIn (l : List Answer) : List Action := l.filterMap Answer.undelivered?

/-- The actions reported lost. -/
def lostIn (l : List Answer) : List Action := l.filterMap Answer.lost?

/-- The IDs named in the errors of `Dequeue`. -/
def missedIn (l : List Answer) : List String := l.filterMap Answer.missed?

/-- The actions of deliveries. -/
def actionsOf (l : List (Delivery × Action)) : List Action := l.map fun x => x.1.action

/-- What a step of the queue `q` adds to its books: the new answers match what
the calls have returned since, and what was handed out is still in flight or
answered for. -/
structure Entry (q : QueueID) (t t' : Queue.State) (answers : List Answer) (arrived : List Action) (lost : Nat) :
    Prop where
  sent : actionsOf t'.committed = actionsOf t.committed ++ sentIn answers
  givenUp : actionsOf t'.givenUp = actionsOf t.givenUp ++ lostIn answers
  missed : (t'.unfetched.map fun x => x.1.string) = (t.unfetched.map fun x => x.1.string) ++ missedIn answers
  handed : ∀ a, (actionsOf t'.handed).count a + (actionsOf t.inFlight).count a =
    (actionsOf t.handed).count a + (actionsOf t'.inFlight).count a + (sentIn answers).count a +
      (undeliveredIn answers).count a
  arrived : ∀ a, arrived.count a ≤ (sentIn answers).count a + (undeliveredIn answers).count a
  lost : lost = if q = .main then (lostIn answers).length else 0

section Inversion

variable {j : Json} {s s' : State} {q : QueueID} {t u : Queue.State} {n : Nat} {ok : Bool}

/-- A step that answers nothing about a delivery and moves none. -/
theorem Entry.quiet {answers : List Answer} (hi : t.inFlight = u.inFlight) (hh : t.handed = u.handed)
    (hc : t.committed = u.committed) (hg : t.givenUp = u.givenUp) (hu : t.unfetched = u.unfetched)
    (hsent : sentIn answers = []) (hundelivered : undeliveredIn answers = []) (hlost : lostIn answers = [])
    (hmissed : missedIn answers = []) : Entry q u t answers [] 0 where
  sent := by rw [hc, hsent, List.append_nil]
  givenUp := by rw [hg, hlost, List.append_nil]
  missed := by rw [hu, hmissed, List.append_nil]
  handed a := by rw [hh, hi, hsent, hundelivered]; rfl
  arrived a := Nat.zero_le _
  lost := by rw [hlost]; split <;> rfl

theorem endedBy_popID {cancelled : Bool} {r : Redis Action} {l : List Answer}
    (h : l = endedBy (Queue.popID j cancelled ok q r).2) :
    sentIn l = [] ∧ undeliveredIn l = [] ∧ lostIn l = [] ∧ missedIn l = [] := by
  subst h
  unfold Queue.popID
  split
  next e he =>
    cases q <;> cases he
    exact ⟨rfl, rfl, rfl, rfl⟩
  split
  · exact ⟨rfl, rfl, rfl, rfl⟩
  split
  next e _ => cases e <;> exact ⟨rfl, rfl, rfl, rfl⟩
  next => exact ⟨rfl, rfl, rfl, rfl⟩

theorem entry_poll {cancelled : Bool} (hs : Queue.step j q u (.dequeue cancelled ok) = some t) :
    Entry q u t (endedBy (Queue.popID j cancelled ok q u.redis).2) [] 0 := by
  obtain ⟨hsent, hundelivered, hlost, hmissed⟩ := @endedBy_popID j q ok cancelled u.redis _ rfl
  cases Queue.step_inv hs with
  | untaken | unreadable | taken => exact .quiet rfl rfl rfl rfl rfl hsent hundelivered hlost hmissed

theorem entry_fetch {id : Queue.ActionSubmissionID} {a : Action} (hn : u.fetching[n]? = some (id, a))
    (hs : Queue.step j q u (.fetch n ok) = some t) :
    Entry q u t (endedBy (Queue.fetchAction j ok q id u.redis)) [] 0 := by
  simp only [Queue.step, hn] at hs
  cases hf : Queue.fetchAction j ok q id u.redis with
  | ok d =>
    rw [hf] at hs
    cases hs
    refine ⟨(List.append_nil _).symm, (List.append_nil _).symm, (List.append_nil _).symm, fun b => ?_,
      fun b => Nat.zero_le _, by split <;> rfl⟩
    simp only [actionsOf, List.map_append, List.count_append, endedBy, sentIn, undeliveredIn, List.filterMap_nil,
      List.count_nil]
    omega
  | error e =>
    rw [hf] at hs
    cases hs
    have hmissed : missedIn [dequeueAnswer e] = [id.string] ∧ sentIn [dequeueAnswer e] = [] ∧
        undeliveredIn [dequeueAnswer e] = [] ∧ lostIn [dequeueAnswer e] = [] := by
      unfold Queue.fetchAction at hf
      split at hf <;> cases hf <;> exact ⟨rfl, rfl, rfl, rfl⟩
    obtain ⟨hm, hs, hu, hl⟩ := hmissed
    refine ⟨?_, ?_, ?_, fun b => ?_, fun b => Nat.zero_le _, ?_⟩
    · rw [endedBy, hs, List.append_nil]
    · rw [endedBy, hl, List.append_nil]
    · rw [endedBy, hm, List.map_append]; rfl
    · rw [endedBy, hs, hu]; rfl
    · rw [endedBy, hl]; split <;> rfl

theorem count_landed {d : Delivery} {a : Action} (hn : u.inFlight[n]? = some (d, a)) (b : Action) :
    (actionsOf u.inFlight).count b = (actionsOf (u.inFlight.eraseIdx n)).count b + [d.action].count b := by
  rw [actionsOf, Redelivery.count_map_eraseIdx hn, List.count_singleton]
  simp only [actionsOf, beq_iff_eq]

theorem entry_commit {d : Delivery} {a : Action} (hn : u.inFlight[n]? = some (d, a))
    (hs : Queue.step j q u (.commit n ok) = some t) : Entry q u t [.action d.action] [d.action] 0 := by
  simp only [Queue.step, hn] at hs
  cases hs
  refine ⟨List.map_append, (List.append_nil _).symm, (List.append_nil _).symm, fun b => ?_, fun b => ?_,
    by split <;> rfl⟩
  · rw [count_landed hn b]
    change _ = (actionsOf u.handed).count b + (actionsOf (u.inFlight.eraseIdx n)).count b + [d.action].count b + 0
    change (actionsOf u.handed).count b + _ = _
    omega
  · exact Nat.le_add_right _ _

theorem entry_restore {d : Delivery} {a : Action} {cause : PkgErr} {arrived : Bool}
    (hn : u.inFlight[n]? = some (d, a)) (hs : Queue.step j q u (.restore n ok) = some t) :
    Entry q u t [(undelivered q d.action cause (d.restore j ok a u.redis).2).1]
      (if arrived then [d.action] else []) (undelivered q d.action cause (d.restore j ok a u.redis).2).2 := by
  have hhanded : ∀ b, (actionsOf u.handed).count b + (actionsOf u.inFlight).count b =
      (actionsOf u.handed).count b + (actionsOf (u.inFlight.eraseIdx n)).count b + 0 + [d.action].count b := by
    intro b
    rw [count_landed hn b]
    omega
  have harr : ∀ b, (if arrived then [d.action] else []).count b ≤ 0 + [d.action].count b := by
    intro b
    cases arrived
    · exact Nat.zero_le _
    · exact (Nat.zero_add _).ge
  simp only [Queue.step, hn] at hs
  split at hs <;> cases hs
  next hr =>
    rw [hr]
    exact ⟨(List.append_nil _).symm, (List.append_nil _).symm, (List.append_nil _).symm, hhanded,
      harr, by split <;> rfl⟩
  next hr =>
    rw [hr]
    exact ⟨(List.append_nil _).symm, List.map_append, (List.append_nil _).symm, hhanded, harr, rfl⟩

/-- **The cases of a step**: one call of one queue, or a poll of a queue that
does not exist. -/
theorem step_inv {e : Event} (h : step j s e = some s') :
    (∃ name, s' = { s with
      answers := Function.update s.answers (.other name) (s.answers (.other name) ++ [.invalidQueueID]) }) ∨
      ∃ q f t answers arrived lost, Queue.step j q (s.queues.queue q) f = some t ∧
        Entry q (s.queues.queue q) t answers arrived lost ∧ s' = s.record q t answers arrived lost ∧
        (Apart s e → AllDistinct s.queues (q, f)) := by
  cases e with
  | enqueue q a ok =>
    obtain ⟨t, ht, rfl⟩ := Option.map_eq_some_iff.mp h
    refine .inr ⟨q, _, t, [], [], 0, ht, ?_, rfl, fun hd => hd⟩
    cases Queue.step_inv ht <;> exact .quiet rfl rfl rfl rfl rfl rfl rfl rfl rfl
  | push q n ok =>
    obtain ⟨t, ht, rfl⟩ := Option.map_eq_some_iff.mp h
    refine .inr ⟨q, _, t, [], [], 0, ht, ?_, rfl, fun _ _ _ => trivial⟩
    cases Queue.step_inv ht <;> exact .quiet rfl rfl rfl rfl rfl rfl rfl rfl rfl
  | poll q cancelled ok =>
    cases q with
    | other name => cases h; exact .inl ⟨name, rfl⟩
    | main | direct | backup =>
      obtain ⟨t, ht, rfl⟩ := Option.map_eq_some_iff.mp h
      exact .inr ⟨_, _, t, _, [], 0, ht, entry_poll ht, rfl, fun _ _ _ => trivial⟩
  | fetch q n ok =>
    simp only [step] at h
    split at h
    · cases h
    next id a hn =>
    obtain ⟨t, ht, rfl⟩ := Option.map_eq_some_iff.mp h
    exact .inr ⟨q, _, t, _, [], 0, ht, entry_fetch hn ht, rfl, fun _ _ _ => trivial⟩
  | respond q n ctx encode flush arrived ok =>
    simp only [step, respond] at h
    split at h
    · cases h
    next d a hn =>
    split at h
    · obtain ⟨t, ht, rfl⟩ := Option.map_eq_some_iff.mp h
      exact .inr ⟨q, _, t, _, _, _, ht, entry_restore hn ht, rfl, fun _ _ _ => trivial⟩
    · obtain ⟨t, ht, rfl⟩ := Option.map_eq_some_iff.mp h
      exact .inr ⟨q, _, t, _, _, 0, ht, entry_commit hn ht, rfl, fun _ _ _ => trivial⟩

end Inversion

/-! ## The books of a queue -/

/-- The answers of the polls of a queue against what its calls returned. -/
structure Balanced (t : Queue.State) (answers : List Answer) (node : List Action) : Prop where
  sent : actionsOf t.committed = sentIn answers
  givenUp : actionsOf t.givenUp = lostIn answers
  missed : (t.unfetched.map fun x => x.1.string) = missedIn answers
  handed : ∀ a, (actionsOf t.handed).count a =
    (actionsOf t.inFlight).count a + (sentIn answers).count a + (undeliveredIn answers).count a
  node : ∀ a, node.count a ≤ (sentIn answers).count a + (undeliveredIn answers).count a

section Runs

variable {j : Json} {s : State}

theorem Balanced.add {q : QueueID} {t t' : Queue.State} {answers l : List Answer} {node arrived : List Action}
    {lost : Nat} (h : Balanced t answers node) (he : Entry q t t' l arrived lost) :
    Balanced t' (answers ++ l) (node ++ arrived) := by
  refine ⟨?_, ?_, ?_, fun a => ?_, fun a => ?_⟩
  · rw [he.sent, h.sent, sentIn, sentIn, sentIn, List.filterMap_append]
  · rw [he.givenUp, h.givenUp, lostIn, lostIn, lostIn, List.filterMap_append]
  · rw [he.missed, h.missed, missedIn, missedIn, missedIn, List.filterMap_append]
  · have h₁ := he.handed a
    have h₂ := h.handed a
    simp only [sentIn, undeliveredIn, List.filterMap_append, List.count_append] at *
    omega
  · have h₁ := he.arrived a
    have h₂ := h.node a
    simp only [sentIn, undeliveredIn, List.filterMap_append, List.count_append] at *
    omega

/-- The queues of a run are those of a run of the queues. -/
theorem queues_reach (h : Lts.Reach (system j) Apart s) : Lts.Reach (Queue.sharedSystem j) AllDistinct s.queues := by
  refine h.simulation State.queues ?_ ?_
  · rintro s rfl; rfl
  · intro s e s' _ _ he hs
    rcases step_inv hs with ⟨name, rfl⟩ | ⟨q, f, t, _, _, _, ht, -, rfl, hd⟩
    · exact .inl rfl
    · exact .inr ⟨(q, f), hd he, Option.map_eq_some_iff.mpr ⟨t, ht, rfl⟩⟩

/-- The books of every queue balance, and the lost finalized actions are those
the polls of the main queue reported as lost. -/
theorem balanced (h : Lts.Reach (system j) Apart s) :
    (∀ q, Balanced (s.queues.queue q) (s.answers q) (s.node q)) ∧ s.lost = (lostIn (s.answers .main)).length := by
  refine h.invariant (fun s => (∀ q, Balanced (s.queues.queue q) (s.answers q) (s.node q)) ∧
    s.lost = (lostIn (s.answers .main)).length) ?_ ?_
  · rintro s rfl
    exact ⟨fun q => ⟨rfl, rfl, rfl, fun a => rfl, fun a => Nat.zero_le _⟩, rfl⟩
  · intro s e s' _ ih he hs
    rcases step_inv hs with ⟨name, rfl⟩ | ⟨q, f, t, answers, arrived, lost, ht, hentry, rfl, -⟩
    · refine ⟨fun p => ?_, ih.2⟩
      by_cases hp : p = .other name
      · subst hp
        simp only [Function.update_self]
        rw [← List.append_nil (s.node (.other name))]
        exact (ih.1 _).add (q := .other name) (.quiet rfl rfl rfl rfl rfl rfl rfl rfl rfl)
      · simp only [Function.update_of_ne hp]
        exact ih.1 p
    · refine ⟨fun p => ?_, ?_⟩
      · by_cases hp : p = q
        · subst hp
          simp only [State.record, Shared.queue_put_self, Function.update_self]
          exact (ih.1 p).add hentry
        · simp only [State.record, Shared.queue_put_ne _ hp, Function.update_of_ne hp]
          exact { ih.1 p with }
      · change s.lost + lost = _
        rw [ih.2, hentry.lost]
        by_cases hq : q = .main
        · subst hq
          simp only [State.record, Function.update_self, if_true, lostIn, List.filterMap_append, List.length_append]
        · simp only [State.record, Function.update_of_ne (Ne.symm hq), if_neg hq, Nat.add_zero]

/-- The actions of a queue that wait or are inside a poll. -/
def pending (j : Json) (q : QueueID) (s : State) : List Action :=
  (Queue.queueList j q s.queues.redis).map Prod.snd ++ (s.queues.queue q).fetching.map Prod.snd ++
    (s.queues.queue q).inFlight.map Prod.snd

theorem actionsOf_eq {l : List (Delivery × Action)} (h : ∀ x ∈ l, x.1.action = x.2) : actionsOf l = l.map Prod.snd :=
  List.map_congr_left h

/-- An ID taken without its action is that of one enqueued action. -/
theorem count_missed {q : QueueID} {t : Queue.State} (hl : Queue.Labelled j q t)
    (hn : ((Queue.accepted t).map pairOf).Nodup) (hsub : ∀ x ∈ t.unfetched, x.2 ∈ t.enqueued) {a : Action}
    (ha : a ∈ t.enqueued) :
    (t.unfetched.map fun x => x.1.string).count (submissionID a).string = (t.unfetched.map Prod.snd).count a := by
  simp only [List.count_eq_countP, List.countP_map]
  refine List.countP_congr fun x hx => ?_
  simp only [Function.comp_apply, beq_iff_eq, Queue.ActionSubmissionID.string_eq_iff, hl.unfetched x hx]
  constructor
  · intro hpair
    exact List.inj_on_of_nodup_map hn (List.mem_append_left _ (hsub x hx)) (List.mem_append_left _ ha) hpair
  · rintro rfl; rfl

/-- **Every action is accounted for.** In every run of polls and `Enqueue` calls
on the three queues, in any order, with any command, write or flush failing, in
which no body expires and no two actions share their pair: an action enqueued on
`q` waits, is inside a poll, was sent to the node, was reported as lost, or its
ID was named in the error of a `Dequeue`, exactly one of these and once. The
node gets an action as often as it was sent and as it was reported undelivered
at most, so at most `MaxDeliveryAttempts` times, and only what was enqueued on
the queue it polls. The counter of lost finalized actions counts the reports of
the main queue. -/
theorem polls_account (h : Lts.Reach (system j) Apart s) (q : QueueID) :
    (∀ a ∈ (s.queues.queue q).enqueued, (pending j q s).count a + (sentIn (s.answers q)).count a +
      (lostIn (s.answers q)).count a + (missedIn (s.answers q)).count (submissionID a).string = 1) ∧
    (∀ a, (s.node q).count a ≤ (sentIn (s.answers q)).count a + (undeliveredIn (s.answers q)).count a ∧
      (sentIn (s.answers q)).count a + (undeliveredIn (s.answers q)).count a ≤ maxDeliveryAttempts.toNat) ∧
    (∀ a ∈ s.node q, a ∈ (s.queues.queue q).enqueued) ∧
    s.lost = (lostIn (s.answers .main)).length := by
  obtain ⟨hbooks, hlost⟩ := balanced h
  have hb := hbooks q
  have hok := Queue.sharedOK (queues_reach h)
  have hf := Queue.faithful (queues_reach h) q
  have hconserved := Redelivery.conserved (hok.redelivery q)
  have hattempts := Redelivery.attempts (by decide) (hok.redelivery q)
  have hhanded : ∀ a, (sentIn (s.answers q)).count a + (undeliveredIn (s.answers q)).count a ≤
      ((s.queues.queue q).handed.map Prod.snd).count a := by
    intro a
    have := hb.handed a
    rw [actionsOf_eq hf.handed] at this
    omega
  refine ⟨fun a ha => ?_, fun a => ⟨hb.node a, (hhanded a).trans (hattempts.handed a)⟩, fun a ha => ?_, hlost⟩
  · have hone : (s.queues.queue q).enqueued.count a = 1 :=
      List.count_eq_one_of_mem ((hok.nodup q).of_map.of_append_left) ha
    have hcount := hconserved.count_eq a
    have hsub : ∀ x ∈ (s.queues.queue q).unfetched, x.2 ∈ (s.queues.queue q).enqueued := fun x hx =>
      hconserved.subset (List.mem_append_right _ (List.mem_map_of_mem hx))
    rw [← hb.sent, ← hb.givenUp, ← hb.missed, actionsOf_eq hf.committed, actionsOf_eq hf.givenUp,
      count_missed (hok.labelled q) (hok.nodup q) hsub ha]
    simp only [Redelivery.State.held, Queue.abstract, List.map_map, List.count_append, hone] at hcount
    simp only [pending, List.count_append]
    exact hcount
  · have hpos : 0 < ((s.queues.queue q).handed.map Prod.snd).count a :=
      (List.count_pos_iff.mpr ha).trans_le ((hb.node a).trans (hhanded a))
    exact hattempts.entered a (List.count_pos_iff.mp hpos)

end Runs

/-- The flush of a poll fails after the action arrived; the next poll sends it
again. -/
def flushFails : List Event :=
  [.enqueue .main (Queue.plainAction 1 [7]) true, .push .main 0 true, .poll .main false true, .fetch .main 0 true,
    .respond .main 0 none none (some "broken pipe") true true, .poll .main false true, .fetch .main 0 true,
    .respond .main 0 none none none false true, .poll .main false true]

theorem polls_account_flushFails :
    ∃ s, Lts.Reach (system (.ofTable [Queue.plainAction 1 [7]])) Apart s ∧
      s.answers .main = [.undelivered (Queue.plainAction 1 [7]) .requeued "broken pipe",
        .action (Queue.plainAction 1 [7]), .null] ∧
      s.node .main = [Queue.plainAction 1 [7], Queue.plainAction 1 [7]] ∧
      (pending (.ofTable [Queue.plainAction 1 [7]]) .main s).count (Queue.plainAction 1 [7]) = 0 := by
  have hrun : ((system (.ofTable [Queue.plainAction 1 [7]])).runIf Apart start flushFails).any (fun s =>
      s.answers .main = [.undelivered (Queue.plainAction 1 [7]) .requeued "broken pipe",
        .action (Queue.plainAction 1 [7]), .null] ∧
      s.node .main = [Queue.plainAction 1 [7], Queue.plainAction 1 [7]] ∧
      (s.queues.queue .main).enqueued = [Queue.plainAction 1 [7]]) := by decide +kernel
  obtain ⟨s, hs, hend⟩ := (Option.any_eq_true _ _).mp hrun
  obtain ⟨hanswers, hnode, henqueued⟩ := of_decide_eq_true hend
  have hreach := Lts.Reach.of_runIf (.init rfl) hs
  have hone := (polls_account hreach .main).1 (Queue.plainAction 1 [7]) (by rw [henqueued]; exact List.mem_cons_self)
  rw [hanswers] at hone
  have hsent : (sentIn [.undelivered (Queue.plainAction 1 [7]) .requeued "broken pipe",
      .action (Queue.plainAction 1 [7]), .null]).count (Queue.plainAction 1 [7]) = 1 := by decide +kernel
  exact ⟨s, hreach, hanswers, hnode, by omega⟩

end TeeProxy.Server.Polls
