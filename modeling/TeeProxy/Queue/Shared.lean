/-
The queues of one `ActionQueues` in one Redis (`internal/queue/queue.go`).

The main, the direct and the backup queue have a list each and one store of
bodies between them: a body is found by its action's ID and submission tag,
whatever queue the ID is on. The calls of all queues run in any order. As long
as no two actions share their pair, on one queue or on two, the sharing is not
seen: each queue is a redelivery queue of its own (`shared_refines`), and the
body of every action on its way is that action. A body's TTL is left out: here
none expires.
-/
import TeeProxy.Queue.Conservation
import Mathlib.Logic.Function.Basic

namespace TeeProxy.Queue

/-- Redis, and the calls of each queue. -/
structure Shared where
  redis : Redis Action
  calls : QueueID → State

namespace Shared

/-- One queue as its calls see it. -/
def queue (s : Shared) (q : QueueID) : State := { s.calls q with redis := s.redis }

/-- What the calls of `q` have made of their queue. -/
def put (s : Shared) (q : QueueID) (t : State) : Shared := ⟨t.redis, Function.update s.calls q t⟩

/-- An empty Redis and no calls. -/
def start : Shared := ⟨.empty, fun _ => Queue.start⟩

theorem queue_put_self (s : Shared) (q : QueueID) (t : State) : (s.put q t).queue q = t := by
  simp only [queue, put, Function.update_self]

theorem queue_put_ne (s : Shared) {q q' : QueueID} (h : q' ≠ q) (t : State) :
    (s.put q t).queue q' = { s.queue q' with redis := t.redis } := by
  simp only [queue, put, Function.update_of_ne h]

end Shared

section System

variable (j : Json)

/-- A step of one queue; the others see the Redis it leaves. -/
def sharedStep (s : Shared) (e : QueueID × Event) : Option Shared := (step j e.1 (s.queue e.1) e.2).map (s.put e.1)

def sharedSystem : Lts.System Shared (QueueID × Event) where
  init s := s = .start
  step := sharedStep j

def queueIDs : List QueueID := [.main, .direct, .backup]

/-- The pair of a new `Enqueue` differs from those of the actions enqueued,
and of the calls still running, on every queue. -/
def AllDistinct (s : Shared) (e : QueueID × Event) : Prop := ∀ q ∈ queueIDs, Distinct (s.queue q) e.2

instance (s : Shared) (e : QueueID × Event) : Decidable (AllDistinct s e) :=
  inferInstanceAs (Decidable (∀ q ∈ queueIDs, Distinct (s.queue q) e.2))

end System

/-! ## What one queue leaves of another -/

section Frame

variable {j : Json} {q q' : QueueID} {r r' : Redis Action} {a : Action} {ok : Bool}

theorem listName_ne {queue queue' : RedisStorage ActionSubmissionID} (h : queueByID j q = .ok queue)
    (h' : queueByID j q' = .ok queue') (hne : q' ≠ q) : queue'.prefixed "" ≠ queue.prefixed "" := by
  cases q <;> cases h <;> cases q' <;> cases h'
  all_goals first
    | exact absurd rfl hne
    | simp only [RedisStorage.prefixed]; decide

theorem queueList_setList_ne {queue : RedisStorage ActionSubmissionID} (h : queueByID j q = .ok queue) (hne : q' ≠ q)
    (l : List (Bytes × Action)) : queueList j q' (r.setList (queue.prefixed "") l) = queueList j q' r := by
  unfold queueList
  split
  next queue' hq' => rw [Redis.list, Redis.list, Redis.setList, GoMap.get?_set_ne _ (listName_ne h hq' hne)]
  next => rfl

theorem queueList_pushID (hne : q' ≠ q) (h : pushID j ok q a r = .ok r') : queueList j q' r' = queueList j q' r := by
  unfold pushID at h
  split at h
  · cases h
  next queue hq =>
  split at h <;> cases h
  next henq =>
    obtain ⟨data, -, rfl⟩ := RedisStorage.enqueue_ok henq
    exact queueList_setList_ne hq hne _

theorem queueList_popID {cancelled : Bool} {res : Except QueueErr (ActionSubmissionID × Action)} (hne : q' ≠ q)
    (h : popID j cancelled ok q r = (r', res)) : queueList j q' r' = queueList j q' r := by
  unfold popID at h
  split at h
  · cases h; rfl
  next queue hq =>
  split at h
  · cases h; rfl
  have hpop : (queue.dequeue ok r).1 = r ∨ ∃ l, (queue.dequeue ok r).1 = r.setList (queue.prefixed "") l := by
    unfold RedisStorage.dequeue
    cases ok
    · exact .inl rfl
    simp only [Redis.rPop, if_true]
    split
    · exact .inl rfl
    · exact .inl rfl
    next hpop =>
      simp only [Option.some.injEq, Prod.mk.injEq] at hpop
      obtain ⟨rfl, -⟩ := hpop
      split <;> exact .inr ⟨_, rfl⟩
  have hr' : r' = (queue.dequeue ok r).1 := by
    split at h <;> cases h
    · next hd => rw [hd]
    · next hd => rw [hd]
  rw [hr']
  rcases hpop with heq | ⟨l, heq⟩
  · rw [heq]
  · rw [heq]; exact queueList_setList_ne hq hne l

theorem queueList_restore {d : Delivery} {res : Except QueueErr Unit} (hd : d.queueID = q) (hne : q' ≠ q)
    (h : d.restore j ok a r = (r', res)) : queueList j q' r' = queueList j q' r := by
  cases res with
  | error e => exact (restore_error h).queueList_eq
  | ok u =>
    unfold Delivery.restore at h
    dsimp only at h
    split at h
    · cases h
    split at h
    · cases h
    next queue hq =>
    split at h <;> cases h
    next hreq =>
      obtain ⟨data, -, rfl⟩ := RedisStorage.requeue_ok hreq
      exact queueList_setList_ne (hd ▸ hq) hne _

/-- The calls of one queue leave the lists of the others alone. -/
theorem queueList_step {s s' : State} {e : Event} (hl : Labelled j q s) (hne : q' ≠ q) (hs : step j q s e = some s') :
    queueList j q' s'.redis = queueList j q' s.redis := by
  cases e with
  | enqueue a ok =>
    simp only [step] at hs
    split at hs <;> cases hs
    · rfl
    next hstore =>
      obtain ⟨data, -, rfl⟩ := storeAction_ok hstore
      rfl
  | push n ok =>
    simp only [step] at hs
    split at hs
    · cases hs
    split at hs <;> cases hs
    · rfl
    next hpush => exact queueList_pushID hne hpush
  | dequeue cancelled ok =>
    simp only [step] at hs
    split at hs <;> cases hs
    next hpop => exact queueList_popID hne hpop
    next hpop => exact queueList_popID hne hpop
  | fetch n ok =>
    simp only [step] at hs
    split at hs
    · cases hs
    split at hs <;> cases hs <;> rfl
  | commit n ok =>
    simp only [step] at hs
    split at hs <;> cases hs
    next d a hn => exact (removed_commit d).queueList_eq
  | restore n ok =>
    simp only [step] at hs
    split at hs
    · cases hs
    next d a hn =>
    have hq := (hl.inFlight _ (List.mem_of_getElem? hn)).2.2
    split at hs <;> cases hs
    next hrestore => exact queueList_restore hq hne hrestore
    next hrestore => exact queueList_restore hq hne hrestore

end Frame

/-! ## Distinct pairs over all queues -/

/-- The actions enqueued and those being enqueued. -/
def accepted (s : State) : List Action := s.enqueued ++ s.pushing

section Distinct

variable {j : Json} {q : QueueID} {s s' : State} {e : Event}

theorem accepted_step (hs : Step j q s e s') : (accepted s').Subperm (accepted s) ∨
    ∃ a ok, e = .enqueue a ok ∧ (accepted s').Perm (a :: accepted s) := by
  unfold accepted
  cases hs with
  | refused | untaken | unreadable | taken | unfetched | fetched | committed | givenUp | requeued =>
    exact .inl (List.Subperm.refl _)
  | @stored a ok =>
    refine .inr ⟨a, ok, rfl, ?_⟩
    rw [← List.append_assoc]
    exact List.perm_append_singleton a _
  | unpushed hn => exact .inl ((List.Sublist.refl _).append (List.eraseIdx_sublist _ _)).subperm
  | @pushed n _ a _ _ hn =>
    obtain ⟨hlt, rfl⟩ := List.getElem?_eq_some_iff.mp hn
    rw [List.append_assoc]
    exact .inl (((List.getElem_cons_eraseIdx_perm hlt).append_left _).subperm)

theorem accepted_other {name : String} (h : accepted s = []) (hs : step j (.other name) s e = some s') :
    accepted s' = [] := by
  rcases accepted_step (step_inv hs) with hsub | ⟨a, ok, rfl, -⟩
  · rw [h] at hsub
    exact List.subperm_nil.mp hsub
  · cases hs
    exact h

/-- What the redelivery queue holds was enqueued, so what is on its way was
accepted. -/
theorem live_subset_accepted (hheld : ∀ a ∈ (abstract j q s).held, a ∈ s.enqueued) :
    ∀ a ∈ live j q s, a ∈ accepted s := by
  intro a ha
  simp only [Redelivery.State.held, abstract, List.map_map, List.mem_append] at hheld
  simp only [live, List.mem_append] at ha
  rw [accepted, List.mem_append]
  rcases ha with ((ha | ha) | ha) | ha
  · exact .inr ha
  · exact .inl (hheld a (.inl (.inl (.inl (.inl (.inl ha))))))
  · exact .inl (hheld a (.inl (.inl (.inl (.inl (.inr ha))))))
  · exact .inl (hheld a (.inl (.inl (.inl (.inr ha)))))

end Distinct

/-! ## Each queue by itself -/

section Runs

variable {j : Json} {s : Shared}

theorem HasBody.of_values {s s' : State} {a : Action} (h : HasBody j s a)
    (hv : s'.redis.values.get? (bodyKey (submissionID a)) = s.redis.values.get? (bodyKey (submissionID a))) :
    HasBody j s' a := by
  obtain ⟨data, hd, hu⟩ := h
  exact ⟨data, hv.trans hd, hu⟩

/-- What the queues in one Redis keep: each is labelled, is a redelivery queue
and has its bodies, and no pair is accepted twice. -/
structure SharedOK (j : Json) (s : Shared) : Prop where
  unnamed : ∀ name, accepted (s.queue (.other name)) = []
  labelled : ∀ q, Labelled j q (s.queue q)
  redelivery : ∀ q, Lts.Reach (Redelivery.system Action maxDeliveryAttempts.toNat) Redelivery.Once
    (abstract j q (s.queue q))
  nodup : ∀ q, ((accepted (s.queue q)).map pairOf).Nodup
  apart : ∀ q q', q' ≠ q → ∀ a ∈ accepted (s.queue q), ∀ b ∈ accepted (s.queue q'), pairOf a ≠ pairOf b
  bodies : ∀ q, Bodies j q (s.queue q)

theorem SharedOK.distinct (h : SharedOK j s) {e : QueueID × Event} (hd : AllDistinct s e) (q : QueueID) :
    Distinct (s.queue q) e.2 := by
  cases q with
  | main | direct | backup => exact hd _ (by decide)
  | other name =>
    cases he : e.2 with
    | push | dequeue | fetch | commit | restore => trivial
    | enqueue a ok =>
      intro hmem
      change pairOf a ∈ (accepted (s.queue (.other name))).map pairOf at hmem
      rw [h.unnamed] at hmem
      cases hmem

theorem SharedOK.live_subset (h : SharedOK j s) (q : QueueID) :
    ∀ a ∈ live j q (s.queue q), a ∈ accepted (s.queue q) :=
  live_subset_accepted fun _ ha => (Redelivery.conserved (h.redelivery q)).subset ha

/-- What a call of `q` leaves of the bodies of another queue. -/
theorem SharedOK.body_kept (h : SharedOK j s) {q q' : QueueID} (hne : q' ≠ q) {t : State} {e : Event}
    (hd : AllDistinct s (q, e)) (hflow : Flow j q (s.queue q) e t) {b : Action}
    (hb : b ∈ live j q' (s.queue q')) :
    t.redis.values.get? (bodyKey (submissionID b)) = s.redis.values.get? (bodyKey (submissionID b)) := by
  have hb' := h.live_subset q' b hb
  cases hflow with
  | kept _ hv => rw [hv]; rfl
  | @stored a ok data he _ _ hv =>
    subst he
    have hpair : pairOf b ≠ pairOf a := by
      intro heq
      have hnew : ¬ SharesPair a (accepted (s.queue q')) := h.distinct hd q'
      exact hnew (List.mem_map.mpr ⟨b, hb', heq⟩)
    rw [hv, GoMap.get?_set_ne _ (bodyKey_ne hpair)]
    rfl
  | @removed a hperm hv =>
    have ha := h.live_subset q a (hperm.subset List.mem_cons_self)
    have hpair : pairOf b ≠ pairOf a := fun heq => h.apart q q' hne a ha b hb' heq.symm
    rw [hv, GoMap.get?_delete, if_neg (bodyKey_ne hpair)]
    rfl

theorem SharedOK.own (h : SharedOK j s) {q : QueueID} {e : Event} {t : State} (hd : AllDistinct s (q, e))
    (hs : step j q (s.queue q) e = some t) :
    Lts.Reach (Redelivery.system Action maxDeliveryAttempts.toNat) Redelivery.Once (abstract j q t) ∧
      ((accepted t).map pairOf).Nodup ∧ Bodies j q t := by
  have hstep := step_inv hs
  have hl := h.labelled q
  refine ⟨?_, ?_, (h.bodies q).step ?_ (hl.flow hstep)⟩
  · rcases abstract_step hl hstep with heq | ⟨f, hf, hA⟩
    · rw [heq]; exact h.redelivery q
    · refine (h.redelivery q).step ?_ (Redelivery.step_iff.mpr hA)
      -- what enters was being pushed, so it was not enqueued before
      rintro a rfl hmem
      obtain @⟨n, ok, _, hn⟩ := hf
      have hnodup := h.nodup q
      rw [accepted, List.map_append] at hnodup
      exact List.disjoint_of_nodup_append hnodup (List.mem_map_of_mem hmem)
        (List.mem_map_of_mem (List.mem_of_getElem? hn))
  · rcases accepted_step hstep with hsub | ⟨a, ok, rfl, hperm⟩
    · exact nodup_map_of_subperm hsub (h.nodup q)
    · exact ((hperm.map pairOf).nodup_iff).mpr (List.nodup_cons.mpr ⟨h.distinct hd q, h.nodup q⟩)
  · cases e with
    | push | dequeue | fetch | commit | restore => trivial
    | enqueue a ok =>
      intro hmem
      obtain ⟨b, hb, hpair⟩ := List.mem_map.mp hmem
      exact h.distinct hd q (List.mem_map.mpr ⟨b, h.live_subset q b hb, hpair⟩)

theorem SharedOK.other (h : SharedOK j s) {q q' : QueueID} (hne : q' ≠ q) {e : Event} {t : State}
    (hd : AllDistinct s (q, e)) (hs : step j q (s.queue q) e = some t) :
    queueList j q' t.redis = queueList j q' s.redis ∧
      Bodies j q' { s.queue q' with redis := t.redis } := by
  have hlist := queueList_step (h.labelled q) hne hs
  have hlive : live j q' { s.queue q' with redis := t.redis } = live j q' (s.queue q') := by
    simp only [live, hlist]
    rfl
  refine ⟨hlist, ⟨by rw [hlive]; exact (h.bodies q').nodup, fun b hb => ?_⟩⟩
  rw [hlive] at hb
  exact ((h.bodies q').stored b hb).of_values (h.body_kept hne hd ((h.labelled q).flow (step_inv hs)) hb)

theorem SharedOK.step {s' : Shared} {e : QueueID × Event} (h : SharedOK j s) (hd : AllDistinct s e)
    (hs : sharedStep j s e = some s') : SharedOK j s' := by
  obtain ⟨q, e⟩ := e
  obtain ⟨t, ht, rfl⟩ := Option.map_eq_some_iff.mp hs
  obtain ⟨hown, hnodup, hbodies⟩ := h.own hd ht
  have hacc : ∀ q', q' ≠ q → accepted ((s.put q t).queue q') = accepted (s.queue q') := fun q' hne => by
    rw [Shared.queue_put_ne s hne]; rfl
  have hnew : ∀ q', q' ≠ q → ∀ a ∈ accepted t, ∀ b ∈ accepted (s.queue q'), pairOf a ≠ pairOf b := by
    intro q' hne a ha b hb
    rcases accepted_step (step_inv ht) with hsub | ⟨c, ok, rfl, hperm⟩
    · exact h.apart q q' hne a (hsub.subset ha) b hb
    · rcases List.mem_cons.mp (hperm.subset ha) with rfl | ha
      · exact fun heq => h.distinct hd q' (List.mem_map.mpr ⟨b, hb, heq.symm⟩)
      · exact h.apart q q' hne a ha b hb
  refine ⟨fun name => ?_, fun p => ?_, fun p => ?_, fun p => ?_, fun p p' hpp a ha b hb => ?_, fun p => ?_⟩
  · by_cases hp : .other name = q
    · subst hp
      rw [Shared.queue_put_self]
      exact accepted_other (h.unnamed name) ht
    · rw [hacc _ hp]; exact h.unnamed name
  all_goals by_cases hp : p = q
  · subst hp; rw [Shared.queue_put_self]; exact (h.labelled p).step (step_inv ht)
  · rw [Shared.queue_put_ne s hp]
    refine { h.labelled p with waiting := ?_ }
    dsimp only
    rw [(h.other hp hd ht).1]
    exact (h.labelled p).waiting
  · subst hp; rw [Shared.queue_put_self]; exact hown
  · have habs : abstract j p { s.queue p with redis := t.redis } = abstract j p (s.queue p) := by
      simp only [abstract, (h.other hp hd ht).1]
      rfl
    rw [Shared.queue_put_ne s hp, habs]
    exact h.redelivery p
  · subst hp; rw [Shared.queue_put_self]; exact hnodup
  · rw [hacc p hp]; exact h.nodup p
  · subst hp
    rw [Shared.queue_put_self] at ha
    rw [hacc p' hpp] at hb
    exact hnew p' hpp a ha b hb
  · rw [hacc p hp] at ha
    by_cases hp' : p' = q
    · subst hp'
      rw [Shared.queue_put_self] at hb
      exact (hnew p hp b hb a ha).symm
    · rw [hacc p' hp'] at hb
      exact h.apart p p' hpp a ha b hb
  · subst hp; rw [Shared.queue_put_self]; exact hbodies
  · rw [Shared.queue_put_ne s hp]; exact (h.other hp hd ht).2

theorem sharedOK (h : Lts.Reach (sharedSystem j) AllDistinct s) : SharedOK j s := by
  refine h.invariant (SharedOK j) ?_ fun s e s' _ ih hd hs => ih.step hd hs
  rintro s rfl
  refine ⟨fun _ => rfl, fun q => ?_, fun q => ?_, fun q => ?_, fun q q' _ a ha => ?_, fun q => ?_⟩
  · exact @labelled _ _ Lts.Free _ (.init rfl)
  · exact abstract_reach (.init rfl)
  · exact List.nodup_nil
  · cases ha
  · exact Queue.bodies (.init rfl)

/-! ## Deliveries -/

/-- Every delivery holds the action its ID was pushed for. -/
structure Faithful (s : State) : Prop where
  handed : ∀ x ∈ s.handed, x.1.action = x.2
  inFlight : ∀ x ∈ s.inFlight, x.1.action = x.2
  committed : ∀ x ∈ s.committed, x.1.action = x.2
  givenUp : ∀ x ∈ s.givenUp, x.1.action = x.2

theorem Faithful.step {q : QueueID} {s s' : State} {e : Event} (h : Faithful s) (hl : Labelled j q s)
    (hb : Bodies j q s) (hs : Step j q s e s') : Faithful s' := by
  cases hs with
  | refused | stored | unpushed | pushed | untaken | unreadable | taken | unfetched => exact { h with }
  | @fetched n ok id a data d hn _ _ hd hu =>
    obtain ⟨data', hd', hu'⟩ := hb.fetching hl (List.mem_of_getElem? hn)
    rw [hd'] at hd
    cases hd
    have hact : d.action = a := Except.ok.inj (hu.symm.trans hu')
    exact { h with handed := forall_mem_concat h.handed hact, inFlight := forall_mem_concat h.inFlight hact }
  | committed hn =>
    have hact := h.inFlight _ (List.mem_of_getElem? hn)
    exact { h with
      inFlight := forall_mem_eraseIdx _ h.inFlight
      committed := forall_mem_concat h.committed hact }
  | givenUp hn =>
    have hact := h.inFlight _ (List.mem_of_getElem? hn)
    exact { h with
      inFlight := forall_mem_eraseIdx _ h.inFlight
      givenUp := forall_mem_concat h.givenUp hact }
  | requeued => exact { h with inFlight := forall_mem_eraseIdx _ h.inFlight }

theorem faithful (h : Lts.Reach (sharedSystem j) AllDistinct s) : ∀ q, Faithful (s.queue q) := by
  refine h.invariant (fun s => ∀ q, Faithful (s.queue q)) ?_ ?_
  · rintro s rfl q
    constructor <;> (intro x hx; cases hx)
  · intro s e s' hr ih _ hs q
    obtain ⟨t, ht, rfl⟩ := Option.map_eq_some_iff.mp hs
    by_cases hq : q = e.1
    · subst hq
      rw [Shared.queue_put_self]
      exact (ih e.1).step ((sharedOK hr).labelled e.1) ((sharedOK hr).bodies e.1) (step_inv ht)
    · rw [Shared.queue_put_ne s hq]
      exact { ih q with }

/-- **The queues in one Redis do not see each other.** In every run of calls on
all queues, in any order and with any command failing, in which no body expires
and no two actions share their pair: each queue goes through the states of a
redelivery queue of its own, with what was enqueued on it; the body stored for
each action on its way, on any queue, is that action; and so is what each
delivery holds. -/
theorem shared_refines (h : Lts.Reach (sharedSystem j) AllDistinct s) (q : QueueID) :
    Lts.Reach (Redelivery.system Action maxDeliveryAttempts.toNat) Redelivery.Once (abstract j q (s.queue q)) ∧
      (∀ a ∈ live j q (s.queue q), HasBody j (s.queue q) a) ∧ ∀ x ∈ (s.queue q).handed, x.1.action = x.2 :=
  ⟨(sharedOK h).redelivery q, ((sharedOK h).bodies q).stored, (faithful h q).handed⟩

end Runs

/-- An action on the main queue and one on the direct queue; the first is
delivered and committed. -/
def oneOnEach : List (QueueID × Event) :=
  [(.main, .enqueue (plainAction 1 [7]) true), (.direct, .enqueue (plainAction 2 [8]) true), (.main, .push 0 true),
    (.direct, .push 0 true), (.main, .dequeue false true), (.main, .fetch 0 true), (.main, .commit 0 true)]

theorem shared_refines_oneOnEach :
    ∃ s, Lts.Reach (sharedSystem (.ofTable [plainAction 1 [7], plainAction 2 [8]])) AllDistinct s ∧
      (s.queue .main).committed.map Prod.snd = [plainAction 1 [7]] ∧
      HasBody (.ofTable [plainAction 1 [7], plainAction 2 [8]]) (s.queue .direct) (plainAction 2 [8]) := by
  have hrun : ((sharedSystem (.ofTable [plainAction 1 [7], plainAction 2 [8]])).runIf AllDistinct .start oneOnEach).any
      (fun s => (s.queue .main).committed.map Prod.snd = [plainAction 1 [7]] ∧
        plainAction 2 [8] ∈ live (.ofTable [plainAction 1 [7], plainAction 2 [8]]) .direct (s.queue .direct)) := by
    decide +kernel
  obtain ⟨s, hs, hend⟩ := (Option.any_eq_true _ _).mp hrun
  obtain ⟨hcommitted, hlive⟩ := of_decide_eq_true hend
  have hreach := Lts.Reach.of_runIf (.init rfl) hs
  exact ⟨s, hreach, hcommitted, (shared_refines hreach .direct).2.1 _ hlive⟩

end TeeProxy.Queue
