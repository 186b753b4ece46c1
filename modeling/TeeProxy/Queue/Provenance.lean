/-
Where what a queue hands out comes from.

The three queues share one store of bodies, and a body may be replaced by that
of another action with the same ID and submission tag, on any queue. Still, a
delivery has the pair its ID was pushed with, and its body is that of an action
some `Enqueue` was called with. So what holds of all enqueued actions, queue by
queue, says what a poll can be given (`Sourced.handed`), whatever is lost,
replaced or redelivered on the way.
-/
import TeeProxy.Queue.Shared

namespace TeeProxy.Queue

section Sourced

variable (j : Json) (P : QueueID → Action → Prop)

/-- The actions on their way through a queue are ones it may be given; what was
handed out in the place of one has its pair and is one some queue may be
given. -/
structure Sourced (q : QueueID) (s : State) : Prop where
  labelled : Labelled j q s
  waiting : ∀ x ∈ queueList j q s.redis, P q x.2
  pushing : ∀ a ∈ s.pushing, P q a
  fetching : ∀ x ∈ s.fetching, P q x.2
  inFlight : ∀ x ∈ s.inFlight, P q x.2
  handed : ∀ x ∈ s.handed, P q x.2 ∧ pairOf x.1.action = pairOf x.2 ∧ ∃ q', P q' x.1.action

/-- Every body is that of an action with its pair which some queue may be
given. -/
def BodiesOf (r : Redis Action) : Prop :=
  ∀ (id : ActionSubmissionID) (data : Bytes), r.values.get? (bodyKey id) = some data →
    ∃ a q, j.action.unmarshal data = .ok a ∧ pairOf a = id.pair ∧ P q a

end Sourced

section Steps

variable {j : Json} {P P' : QueueID → Action → Prop} {q : QueueID} {s s' : State} {e : Event} {r r' : Redis Action}

theorem BodiesOf.mono (h : BodiesOf j P r) (hP : ∀ q a, P q a → P' q a) : BodiesOf j P' r := by
  intro id data hd
  obtain ⟨a, q, hu, hpair, ha⟩ := h id data hd
  exact ⟨a, q, hu, hpair, hP q a ha⟩

theorem BodiesOf.of_values (h : BodiesOf j P r) (hv : r'.values = r.values) : BodiesOf j P r' := by
  unfold BodiesOf
  rw [hv]
  exact h

theorem BodiesOf.removed {id : ActionSubmissionID} (h : BodiesOf j P r) (hr : Removed id r r') : BodiesOf j P r' := by
  rcases hr with rfl | rfl
  · exact h
  · intro id' data hd
    rw [GoMap.get?_delete] at hd
    split at hd
    · cases hd
    · exact h id' data hd

theorem BodiesOf.stored {a : Action} {data : Bytes} (h : BodiesOf j P r) (ha : P q a)
    (hm : j.action.marshal a = .ok data) :
    BodiesOf j P { r with values := r.values.set (bodyKey (submissionID a)) data } := by
  intro id data' hd
  rw [GoMap.get?_set] at hd
  split at hd
  next heq =>
    cases hd
    exact ⟨a, q, j.action.unmarshal_marshal _ _ hm, (bodyKey_eq_iff.mp heq).symm, ha⟩
  next => exact h id data' hd

theorem Sourced.mono (h : Sourced j P q s) (hP : ∀ q a, P q a → P' q a) : Sourced j P' q s where
  labelled := h.labelled
  waiting x hx := hP q _ (h.waiting x hx)
  pushing a ha := hP q a (h.pushing a ha)
  fetching x hx := hP q _ (h.fetching x hx)
  inFlight x hx := hP q _ (h.inFlight x hx)
  handed x hx := by
    obtain ⟨hx, hpair, q', hq'⟩ := h.handed x hx
    exact ⟨hP q _ hx, hpair, q', hP q' _ hq'⟩

theorem Sourced.step (h : Sourced j P q s) (hb : BodiesOf j P s.redis) (hadm : ∀ a ok, e = .enqueue a ok → P q a)
    (hs : Step j q s e s') : Sourced j P q s' ∧ BodiesOf j P s'.redis := by
  have hlabelled := h.labelled.step hs
  cases hs with
  | refused | untaken => exact ⟨h, hb⟩
  | stored hm =>
    have ha := hadm _ _ rfl
    exact ⟨{ h with labelled := hlabelled, pushing := forall_mem_concat h.pushing ha }, hb.stored ha hm⟩
  | unpushed hn => exact ⟨{ h with labelled := hlabelled, pushing := forall_mem_eraseIdx _ h.pushing }, hb⟩
  | pushed hn hd hv hl =>
    refine ⟨{ h with labelled := hlabelled, waiting := ?_, pushing := forall_mem_eraseIdx _ h.pushing },
      hb.of_values hv⟩
    rw [hl]
    exact List.forall_mem_cons.mpr ⟨h.pushing _ (List.mem_of_getElem? hn), h.waiting⟩
  | unreadable hl hu =>
    obtain ⟨id, hid, -⟩ := h.labelled.waiting _ (hl ▸ List.mem_append_right _ List.mem_cons_self)
    rw [hu] at hid
    cases hid
  | taken hl hu hv hl' =>
    have hx := h.waiting _ (hl ▸ List.mem_append_right _ List.mem_cons_self)
    refine ⟨{ h with
      labelled := hlabelled, waiting := ?_, fetching := forall_mem_concat h.fetching hx }, hb.of_values hv⟩
    rw [hl']
    exact fun x hx => h.waiting x (hl ▸ List.mem_append_left _ hx)
  | unfetched hn => exact ⟨{ h with labelled := hlabelled, fetching := forall_mem_eraseIdx _ h.fetching }, hb⟩
  | @fetched n ok id a data d hn hid hq hd hu =>
    have hx : P q a := h.fetching _ (List.mem_of_getElem? hn)
    obtain ⟨b, q', hub, hpair, hq'⟩ := hb id data hd
    obtain rfl : d.action = b := Except.ok.inj (hu.symm.trans hub)
    have hnew : pairOf d.action = pairOf a := hpair.trans (h.labelled.fetching _ (List.mem_of_getElem? hn)).1
    exact ⟨{ h with
      labelled := hlabelled
      fetching := forall_mem_eraseIdx _ h.fetching
      inFlight := forall_mem_concat h.inFlight hx
      handed := forall_mem_concat h.handed ⟨hx, hnew, q', hq'⟩ }, hb⟩
  | committed hn hr | givenUp hn hr =>
    refine ⟨{ h with labelled := hlabelled, waiting := ?_, inFlight := forall_mem_eraseIdx _ h.inFlight },
      hb.removed hr⟩
    rw [hr.queueList_eq]
    exact h.waiting
  | @requeued n ok redis a data d hn hlt hd hv hl =>
    have hx : P q a := h.inFlight _ (List.mem_of_getElem? hn)
    rw [(h.labelled.inFlight _ (List.mem_of_getElem? hn)).2.2] at hl
    refine ⟨{ h with labelled := hlabelled, waiting := ?_, inFlight := forall_mem_eraseIdx _ h.inFlight },
      hb.of_values hv⟩
    rw [hl]
    exact forall_mem_concat h.waiting hx

theorem Sourced.other (h : Sourced j P q s) (hl : queueList j q r' = queueList j q s.redis) :
    Sourced j P q { s with redis := r' } := by
  refine { h with labelled := { h.labelled with waiting := ?_ }, waiting := ?_ }
  · exact hl ▸ h.labelled.waiting
  · exact hl ▸ h.waiting

end Steps

/-- All queues, and the bodies they share. -/
structure SharedSourced (j : Json) (P : QueueID → Action → Prop) (s : Shared) : Prop where
  queues : ∀ q, Sourced j P q (s.queue q)
  bodies : BodiesOf j P s.redis

section Shared

variable {j : Json} {P P' : QueueID → Action → Prop} {s s' : Shared} {e : QueueID × Event}

theorem SharedSourced.mono (h : SharedSourced j P s) (hP : ∀ q a, P q a → P' q a) : SharedSourced j P' s :=
  ⟨fun q => (h.queues q).mono hP, h.bodies.mono hP⟩

theorem SharedSourced.start : SharedSourced j P .start := by
  refine ⟨fun q => ⟨@labelled _ _ Lts.Free _ (.init rfl), ?_, ?_, ?_, ?_, ?_⟩, fun id data hd => by cases hd⟩
  · intro x hx
    change x ∈ queueList j q Queue.start.redis at hx
    rw [queueList_start] at hx
    cases hx
  all_goals exact fun x hx => by cases hx

/-- **The rule.** Where every `Enqueue` is called with an action its queue may
be given, the queues stay sourced. -/
theorem SharedSourced.step (h : SharedSourced j P s) (hadm : ∀ a ok, e.2 = .enqueue a ok → P e.1 a)
    (hs : sharedStep j s e = some s') : SharedSourced j P s' := by
  obtain ⟨q, e⟩ := e
  obtain ⟨t, ht, rfl⟩ := Option.map_eq_some_iff.mp hs
  obtain ⟨hown, hbodies⟩ := (h.queues q).step h.bodies hadm (step_inv ht)
  refine ⟨fun p => ?_, hbodies⟩
  by_cases hp : p = q
  · subst hp
    rw [Shared.queue_put_self]
    exact hown
  · rw [Shared.queue_put_ne s hp]
    have hlist : queueList j p t.redis = queueList j p s.redis := queueList_step (h.queues q).labelled hp ht
    exact (h.queues p).other hlist

end Shared

end TeeProxy.Queue
