/-
Redelivery keeps the order of the queue, for one poller.

A poller that settles each delivery before it asks for the next one has at
most one action off the queue, and a restored action goes back to the end it
was taken from. So without failures the queue hands its actions out in the
order in which they were enqueued: as a redelivery queue it takes its values
in turn (`inTurn_reach`).
-/
import TeeProxy.Lib.Fallible
import TeeProxy.Queue.Conservation

namespace TeeProxy.Queue

variable {j : Json} {q : QueueID}

/-! ## The runs -/

/-- Every Redis command succeeds, and the ID a `Restore` puts back has a JSON
form. -/
def Unfailing (j : Json) (s : State) : Event → Prop
  | .enqueue _ ok | .push _ ok | .dequeue _ ok | .fetch _ ok | .commit _ ok => ok = true
  | .restore n ok => ok = true ∧ ∀ x ∈ s.inFlight[n]?, x.1.id.attempt + 1 < maxDeliveryAttempts →
      (j.submissionID.marshal { x.1.id with attempt := x.1.id.attempt + 1 }).toOption.isSome = true

/-- The poller has settled its delivery when it asks for the next one. -/
def OnePoller (s : State) : Event → Prop
  | .dequeue _ _ => s.fetching = [] ∧ s.inFlight = []
  | _ => True

/-- Distinct pairs, one poller, no failure. -/
structure Orderly (j : Json) (s : State) (e : Event) : Prop where
  distinct : Distinct s e
  poller : OnePoller s e
  unfailing : Unfailing j s e

instance (s : State) : DecidablePred (Unfailing j s)
  | .enqueue _ _ | .push _ _ | .dequeue _ _ | .fetch _ _ | .commit _ _ => inferInstanceAs (Decidable (_ = _))
  | .restore _ _ => inferInstanceAs (Decidable (_ ∧ _))

instance (s : State) : DecidablePred (OnePoller s)
  | .dequeue _ _ => inferInstanceAs (Decidable (_ ∧ _))
  | .enqueue _ _ | .push _ _ | .fetch _ _ | .commit _ _ | .restore _ _ => .isTrue trivial

instance (s : State) (e : Event) : Decidable (Orderly j s e) :=
  decidable_of_iff (Distinct s e ∧ OnePoller s e ∧ Unfailing j s e)
    ⟨fun h => ⟨h.1, h.2.1, h.2.2⟩, fun h => ⟨h.distinct, h.poller, h.unfailing⟩⟩

theorem distinct_of_orderly {s : State} (h : Lts.Reach (system j q) (Orderly j) s) :
    Lts.Reach (system j q) Distinct s :=
  h.mono fun _ _ _ he => he.distinct

theorem smooth_of_orderly {s : State} (h : Lts.Reach (system j q) (Orderly j) s) :
    Lts.Reach (system j q) (Smooth j q) s := by
  refine h.mono fun s e hr he => ⟨fresh_step (distinct_of_orderly hr) he.distinct, ?_⟩
  rintro n rfl
  cases he.unfailing

/-- What is off the queue came from one of the three queues. -/
theorem queueByID_of_out {ok : State → Event → Prop} {s : State} (h : Lts.Reach (system j q) ok s) :
    s.fetching ≠ [] ∨ s.inFlight ≠ [] → ∃ queue, queueByID j q = .ok queue := by
  refine h.invariant (fun s => s.fetching ≠ [] ∨ s.inFlight ≠ [] → ∃ queue, queueByID j q = .ok queue) ?_ ?_
  · rintro s rfl (h | h) <;> exact absurd rfl h
  · intro s e s' _ ih _ hs hout
    have some_of : ∀ {α : Type} {l : List α} {n : Nat} {x : α}, l[n]? = some x → l ≠ [] := by
      rintro α l n x hx rfl; cases hx
    cases step_inv hs with
    | refused | stored | unpushed | pushed | untaken | unreadable => exact ih hout
    | taken hl =>
      cases hq : queueByID j q with
      | ok queue => exact ⟨queue, rfl⟩
      | error e => simp only [queueList, hq] at hl; simp at hl
    | unfetched hn | fetched hn => exact ih (.inl (some_of hn))
    | committed hn | givenUp hn | requeued hn => exact ih (.inr (some_of hn))

/-- A `Restore` with attempts left puts the action back, if its command
succeeds. -/
theorem restore_of_room {d : Delivery} {a : Action} {r : Redis Action} {queue : RedisStorage ActionSubmissionID}
    {data : Bytes} (hq : queueByID j d.queueID = .ok queue) (hroom : d.id.attempt + 1 < maxDeliveryAttempts)
    (hd : j.submissionID.marshal { d.id with attempt := d.id.attempt + 1 } = .ok data) :
    (d.restore j true a r).2 = .ok () := by
  have hd' := hd
  rw [← queueByID_codec hq] at hd'
  have hlt : ¬ d.id.attempt + 1 ≥ maxDeliveryAttempts := by simpa using hroom
  simp only [Delivery.restore, if_neg hlt, hq, RedisStorage.requeue, hd', Redis.rPush, if_true]

/-- Without attempts left it gives the action up, whatever Redis does. -/
theorem restore_exhausted {d : Delivery} (h : maxDeliveryAttempts ≤ d.id.attempt + 1) (ok : Bool) (a : Action)
    (r : Redis Action) : (d.restore j ok a r).2 = .error (.deliveryExhausted d.id.string) := by
  simp only [Delivery.restore, ge_iff_le, if_pos h]

theorem exhausted_of_givenUp {s s' : State} {n : Nat} {ok : Bool} {d : Delivery} {a : Action}
    (hr : Lts.Reach (system j q) (Orderly j) s) (he : Orderly j s (.restore n ok))
    (hs : (system j q).step s (.restore n ok) = some s') (hn : s.inFlight[n]? = some (d, a))
    (hgiven : s'.givenUp ≠ s.givenUp) : maxDeliveryAttempts ≤ d.id.attempt + 1 := by
  by_contra hroom
  rw [UInt8.not_le] at hroom
  obtain ⟨rfl, hjson⟩ := he.unfailing
  obtain ⟨data, hd⟩ := Except.exists_ok_of_isSome (hjson _ hn hroom)
  have hq : d.queueID = q := ((labelled hr).inFlight _ (List.mem_of_getElem? hn)).2.2
  obtain ⟨queue, hqueue⟩ := queueByID_of_out hr (.inr fun hnil => by rw [hnil] at hn; cases hn)
  have hok := restore_of_room (a := a) (r := s.redis) (hq ▸ hqueue) hroom hd
  simp only [system, step, hn] at hs
  split at hs
  · cases hs; exact hgiven rfl
  next heq => rw [heq] at hok; cases hok

/-! ## In turn -/

/-- **A poller that settles each delivery takes the actions in turn**, and
gives none up before its attempts are spent. -/
theorem inTurn_reach {s : State} (h : Lts.Reach (system j q) (Orderly j) s) :
    Lts.Reach (Redelivery.system Action maxDeliveryAttempts.toNat) (fun s e =>
      (Redelivery.Once s e ∧ Redelivery.Spent maxDeliveryAttempts.toNat s e) ∧ Redelivery.InTurn s e)
      (abstract j q s) := by
  refine abstract_reach_of (fun s e s' f hr he hs hf hstep => ⟨⟨?_, ?_⟩, ?_⟩) h
  · exact once_of_distinct (distinct_of_orderly hr) hf
  · rintro n x rfl hx
    obtain ⟨ok⟩ := hf
    have hgiven : s'.givenUp ≠ s.givenUp := fun heq => by
      have hlen : (abstract j q s').givenUp.length = (abstract j q s).givenUp.length := by simp only [abstract, heq]
      generalize abstract j q s' = t at hstep hlen
      cases hstep with
      | giveUp => simp at hlen
    simp only [abstract, List.getElem?_map, Option.map_eq_some_iff] at hx
    obtain ⟨⟨d, a⟩, hn, rfl⟩ := hx
    have hle := exhausted_of_givenUp hr he hs hn hgiven
    have hbound := ((labelled hr).inFlight _ (List.mem_of_getElem? hn)).2.1
    rw [UInt8.le_iff_toNat_le, toNat_attempt_succ hbound] at hle
    exact hle
  · cases hf with
    | take =>
      obtain ⟨hfetching, hinFlight⟩ := he.poller
      exact ⟨by simp only [abstract, hfetching, List.map_nil], by simp only [abstract, hinFlight, List.map_nil]⟩
    | @miss n ok id a hn hne =>
      -- the body is stored, so the fetch finds it
      obtain rfl : ok = true := he.unfailing
      have hb := bodies (fresh_of_distinct (distinct_of_orderly hr))
      obtain ⟨data, hd, hu⟩ := hb.fetching (labelled hr) (List.mem_of_getElem? hn)
      exact absurd (fetchAction_stored hd hu) (hne _)
    | enter | fetch | commit | giveUp | putBack => trivial

theorem exhausted {s : State} (h : Lts.Reach (system j q) (Orderly j) s) :
    ∀ x ∈ s.givenUp, maxDeliveryAttempts ≤ x.1.id.attempt + 1 := by
  refine h.invariant (fun s => ∀ x ∈ s.givenUp, maxDeliveryAttempts ≤ x.1.id.attempt + 1) ?_ ?_
  · rintro s rfl x hx; cases hx
  · intro s e s' hr ih he hs
    cases step_inv hs with
    | refused | stored | unpushed | pushed | untaken | unreadable | taken | unfetched | fetched
    | committed | requeued =>
      exact ih
    | givenUp hn => exact forall_mem_concat ih (exhausted_of_givenUp hr he hs hn (by simp))

theorem handed_of_settled {ok : State → Event → Prop} {s : State} (h : Lts.Reach (system j q) ok s) :
    (∀ x ∈ s.inFlight, x ∈ s.handed) ∧ (∀ x ∈ s.committed, x ∈ s.handed) ∧ ∀ x ∈ s.givenUp, x ∈ s.handed := by
  refine h.invariant (fun s =>
    (∀ x ∈ s.inFlight, x ∈ s.handed) ∧ (∀ x ∈ s.committed, x ∈ s.handed) ∧ ∀ x ∈ s.givenUp, x ∈ s.handed) ?_ ?_
  · rintro s rfl
    exact ⟨fun x hx => (by cases hx), fun x hx => (by cases hx), fun x hx => (by cases hx)⟩
  · rintro s e s' _ ⟨hi, hc, hg⟩ _ hs
    cases step_inv hs with
    | refused | stored | unpushed | pushed | untaken | unreadable | taken | unfetched => exact ⟨hi, hc, hg⟩
    | fetched =>
      have hmore : ∀ {l : List (Delivery × Action)} (y), (∀ x ∈ l, x ∈ s.handed) → ∀ x ∈ l, x ∈ s.handed ++ [y] :=
        fun y hl x hx => List.mem_append_left _ (hl x hx)
      exact ⟨forall_mem_concat (hmore _ hi) (List.mem_append_right _ List.mem_cons_self), hmore _ hc, hmore _ hg⟩
    | committed hn =>
      exact ⟨forall_mem_eraseIdx _ hi, forall_mem_concat hc (hi _ (List.mem_of_getElem? hn)), hg⟩
    | givenUp hn =>
      exact ⟨forall_mem_eraseIdx _ hi, hc, forall_mem_concat hg (hi _ (List.mem_of_getElem? hn))⟩
    | requeued => exact ⟨forall_mem_eraseIdx _ hi, hc, hg⟩

/-! ## What is dequeued next -/

/-- The poller has no delivery, and the next ID of the queue is `id`, pushed
for `a`. -/
structure Next (j : Json) (q : QueueID) (id : ActionSubmissionID) (a : Action) (s : State) : Prop where
  fetching : s.fetching = []
  inFlight : s.inFlight = []
  last : ∃ l data, queueList j q s.redis = l ++ [(data, a)] ∧ j.submissionID.unmarshal data = .ok id

/-- Until the poller asks, the next ID stays the next one: new ones enter at the
other end. -/
theorem Next.step {id : ActionSubmissionID} {a : Action} {s s' : State} {e : Event} (h : Next j q id a s)
    (he : ∀ ok, e ≠ .dequeue false ok) (hs : (system j q).step s e = some s') : Next j q id a s' := by
  obtain ⟨hf, hi, l, data, hl, hu⟩ := h
  have hnone : ∀ {α : Type} {l : List α} {n : Nat} {x : α}, l = [] → l[n]? ≠ some x := by
    rintro α l n x rfl hx; cases hx
  by_cases hcancelled : ∃ ok, e = .dequeue true ok
  · obtain ⟨ok, rfl⟩ := hcancelled
    have hpop : ∃ err, popID j true ok q s.redis = (s.redis, .error err) := by
      unfold popID
      split
      · exact ⟨_, rfl⟩
      · exact ⟨_, if_pos rfl⟩
    obtain ⟨err, hpop⟩ := hpop
    simp only [system, TeeProxy.Queue.step, hpop, Option.some.injEq] at hs
    subst hs
    exact ⟨hf, hi, l, data, hl, hu⟩
  · have hdequeue : ∀ c ok, e ≠ .dequeue c ok := by
      rintro (_ | _) ok rfl
      · exact he ok rfl
      · exact hcancelled ⟨ok, rfl⟩
    cases step_inv hs with
    | refused => exact ⟨hf, hi, l, data, hl, hu⟩
    | stored | unpushed => exact ⟨hf, hi, l, data, hl, hu⟩
    | @pushed n ok b data' redis _ _ _ hq =>
      exact ⟨hf, hi, (data', b) :: l, data, by rw [hq, hl]; rfl, hu⟩
    | untaken | unreadable | taken => exact absurd rfl (hdequeue _ _)
    | unfetched hn | fetched hn => exact absurd hn (hnone hf)
    | committed hn | givenUp hn | requeued hn => exact absurd hn (hnone hi)

theorem Next.later {id : ActionSubmissionID} {a : Action} {ok : State → Event → Prop} {s t : State}
    (hok : ∀ s e, ok s e → ∀ b, e ≠ .dequeue false b) (hl : Lts.Later (system j q) ok s t) (h : Next j q id a s) :
    Next j q id a t := by
  induction hl with
  | refl => exact h
  | step _ he hs ih => exact ih.step (hok _ _ he) hs

theorem Next.dequeue {id : ActionSubmissionID} {a : Action} {s s' : State} (h : Next j q id a s)
    (hs : (system j q).step s (.dequeue false true) = some s') : s'.fetching = [(id, a)] := by
  obtain ⟨hf, -, l, data, hl, hu⟩ := h
  have hpop : ∃ redis, popID j false true q s.redis = (redis, .ok (id, a)) := by
    cases hq : queueByID j q with
    | error e => simp only [queueList, hq] at hl; simp at hl
    | ok queue =>
      rw [← queueList_eq hq] at hl
      rw [← queueByID_codec hq] at hu
      simp [popID, hq, RedisStorage.dequeue_last hl, hu, Except.mapError, Except.map]
  obtain ⟨redis, hpop⟩ := hpop
  simp only [system, TeeProxy.Queue.step, hpop, Option.some.injEq] at hs
  subst hs
  simp [hf]

/-- A `Restore` that puts the action back makes it the next one. -/
theorem next_of_restore {s s' : State} {n : Nat} {d : Delivery} {a : Action}
    (h : Lts.Reach (system j q) (Orderly j) s) (hn : s.inFlight[n]? = some (d, a)) {ok : Bool}
    (hok : (d.restore j ok a s.redis).2 = .ok ()) (hs : (system j q).step s (.restore n ok) = some s') :
    Next j q { d.id with attempt := d.id.attempt + 1 } a s' := by
  obtain ⟨settled, hfifo⟩ := Redelivery.fifo ((inTurn_reach h).mono fun _ _ _ he => he.2)
  have halone : s.inFlight.length + s.fetching.length ≤ 1 := by
    simpa [abstract, Nat.add_comm] using hfifo.alone
  obtain ⟨hi, rfl, hf⟩ := Redelivery.eq_singleton_of_alone halone hn
  have hq : d.queueID = q := ((labelled h).inFlight _ (List.mem_of_getElem? hn)).2.2
  cases hr : d.restore j ok a s.redis with
  | mk redis res =>
    rw [hr] at hok
    obtain rfl : res = .ok () := hok
    obtain ⟨-, data, hd, -, hl⟩ := restore_ok hr
    simp only [system, step, hn, hr, Option.some.injEq] at hs
    subst hs
    rw [hq] at hl
    exact ⟨hf, by simp [hi], _, data, hl, j.submissionID.unmarshal_marshal _ _ hd⟩

/-- **Redelivery keeps the order of the queue.** In every run with distinct
pairs, one poller and no failure:

* actions are committed in the order in which they were enqueued;
* an action enqueued before a committed one has itself been committed, or was
  handed out `MaxDeliveryAttempts` times and its last `Restore` returned
  `ErrDeliveryExhausted`;
* a restored action is the next one dequeued, with one attempt more, whatever
  is enqueued in between. -/
theorem redelivery_fifo {s : State} (h : Lts.Reach (system j q) (Orderly j) s) :
    (s.committed.map fun x => x.1.action).Sublist s.enqueued ∧
    (∀ pre a post, s.enqueued = pre ++ a :: post → a ∈ s.committed.map (fun x => x.1.action) →
      ∀ b ∈ pre, b ∈ s.committed.map (fun x => x.1.action) ∨
        (s.handed.map fun x => x.1.action).count b = maxDeliveryAttempts.toNat ∧
        ∃ x ∈ s.givenUp, x.1.action = b ∧
          ∀ ok r, (x.1.restore j ok b r).2 = .error (.deliveryExhausted x.1.id.string)) ∧
    ∀ n d a s' t t', s.inFlight[n]? = some (d, a) → (d.restore j true a s.redis).2 = .ok () →
      (system j q).step s (.restore n true) = some s' →
      Lts.Later (system j q) (fun t e => Orderly j t e ∧ ∀ ok, e ≠ .dequeue false ok) s' t →
      (system j q).step t (.dequeue false true) = some t' →
      t'.fetching = [({ d.id with attempt := d.id.attempt + 1 }, d.action)] := by
  have hreach := inTurn_reach h
  have honce : (abstract j q s).entered.Nodup := Redelivery.nodup_entered (hreach.mono fun _ _ _ he => he.1.1)
  obtain ⟨settled, hfifo⟩ := Redelivery.fifo (hreach.mono fun _ _ _ he => he.2)
  have hspent := Redelivery.givenUp_spent (by decide) (hreach.mono fun _ _ _ he => he.1)
  obtain ⟨hout, hcommitted, hgiven⟩ := handed_of_settled h
  have haction : ∀ x ∈ s.handed, x.1.action = x.2 := (delivered (smooth_of_orderly h)).2
  have hmap : ∀ l : List (Delivery × Action), (∀ x ∈ l, x ∈ s.handed) →
      l.map (fun x => x.1.action) = l.map Prod.snd :=
    fun l hl => List.map_congr_left fun x hx => haction x (hl x hx)
  rw [hmap _ hcommitted, hmap _ fun _ hx => hx]
  refine ⟨hfifo.committed_sublist, fun pre a post hpre ha b hb => ?_, ?_⟩
  · rcases hfifo.before_committed honce ha hpre b hb with hb | hb
    · exact .inl hb
    · obtain ⟨x, hx, rfl⟩ := List.mem_map.mp hb
      exact .inr ⟨hspent _ hb, x, hx, haction x (hgiven x hx),
        fun ok r => restore_exhausted (exhausted h x hx) ok _ r⟩
  · intro n d a s' t t' hn hok hs hl ht
    have hnext := (next_of_restore h hn hok hs).later (fun _ _ he => he.2) hl
    rw [haction _ (hout _ (List.mem_of_getElem? hn))]
    exact hnext.dequeue ht

/-- The first action is restored until its attempts are spent, then the second
one is committed. -/
def spentThenCommitted : List Event :=
  [.enqueue (plainAction 1 [7]) true, .push 0 true, .enqueue (plainAction 2 [8]) true, .push 0 true] ++
    (List.replicate 5 [Event.dequeue false true, .fetch 0 true, .restore 0 true]).flatten ++
    [.dequeue false true, .fetch 0 true, .commit 0 true]

theorem redelivery_fifo_spent :
    ∃ s, Lts.Reach (system (.ofTable [plainAction 1 [7], plainAction 2 [8]]) .main)
        (Orderly (.ofTable [plainAction 1 [7], plainAction 2 [8]])) s ∧
      s.enqueued = [plainAction 1 [7], plainAction 2 [8]] ∧
      s.committed.map (fun x => x.1.action) = [plainAction 2 [8]] ∧
      (s.handed.map fun x => x.1.action).count (plainAction 1 [7]) = 5 := by
  have hrun : ((system (.ofTable [plainAction 1 [7], plainAction 2 [8]]) .main).runIf
      (Orderly (.ofTable [plainAction 1 [7], plainAction 2 [8]])) start spentThenCommitted).any (fun s =>
        s.enqueued = [plainAction 1 [7], plainAction 2 [8]] ∧
          s.committed.map (fun x => x.1.action) = [plainAction 2 [8]]) := by decide +kernel
  obtain ⟨s, hs, hend⟩ := (Option.any_eq_true _ _).mp hrun
  obtain ⟨henq, hcom⟩ := of_decide_eq_true hend
  have hreach := Lts.Reach.of_runIf (.init rfl) hs
  obtain ⟨-, hbefore, -⟩ := redelivery_fifo hreach
  refine ⟨s, hreach, henq, hcom, ?_⟩
  have hfirst := hbefore [plainAction 1 [7]] (plainAction 2 [8]) [] henq (by rw [hcom]; exact List.mem_cons_self)
    (plainAction 1 [7]) List.mem_cons_self
  rw [hcom] at hfirst
  rcases hfirst with hmem | hcount
  · exact absurd (List.mem_singleton.mp hmem) (by decide)
  · exact hcount.1

end TeeProxy.Queue
