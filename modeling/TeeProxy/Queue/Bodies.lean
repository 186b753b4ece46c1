/-
The bodies behind the queue's entries.

Every ID on its way through the queue names the pair of the action it was
pushed for (`labelled`). If no body is written under the pair of an action
that is still on its way, the body under each such pair is that action's:
a commit removes the body of its own action only, and a write never replaces
one that is still needed (`bodies`).
-/
import TeeProxy.Lib.Redelivery
import TeeProxy.Queue.ActionQueues

namespace TeeProxy.Queue

variable {j : Json} {q : QueueID} {ok : State → Event → Prop}

/-! ## IDs name their actions -/

/-- Every entry and every delivery belongs to the action it was made for, and
those on their way have attempts left. -/
structure Labelled (j : Json) (q : QueueID) (s : State) : Prop where
  waiting : ∀ x ∈ queueList j q s.redis, ∃ id, j.submissionID.unmarshal x.1 = .ok id ∧ id.pair = pairOf x.2 ∧
    id.attempt < maxDeliveryAttempts
  fetching : ∀ x ∈ s.fetching, x.1.pair = pairOf x.2 ∧ x.1.attempt < maxDeliveryAttempts
  inFlight : ∀ x ∈ s.inFlight, x.1.id.pair = pairOf x.2 ∧ x.1.id.attempt < maxDeliveryAttempts ∧ x.1.queueID = q
  handed : ∀ x ∈ s.handed, x.1.id.pair = pairOf x.2
  committed : ∀ x ∈ s.committed, x.1.id.pair = pairOf x.2
  givenUp : ∀ x ∈ s.givenUp, x.1.id.pair = pairOf x.2
  unfetched : ∀ x ∈ s.unfetched, x.1.pair = pairOf x.2

theorem forall_mem_concat {α : Type} {P : α → Prop} {l : List α} {x : α} (hl : ∀ y ∈ l, P y) (hx : P x) :
    ∀ y ∈ l ++ [x], P y := by
  intro y hy
  rcases List.mem_append.mp hy with hy | hy
  · exact hl y hy
  · cases List.mem_singleton.mp hy; exact hx

theorem forall_mem_eraseIdx {α : Type} {P : α → Prop} {l : List α} (n : Nat) (hl : ∀ y ∈ l, P y) :
    ∀ y ∈ l.eraseIdx n, P y := fun y hy => hl y (List.mem_of_mem_eraseIdx hy)

theorem Labelled.step {s s' : State} {e : Event} (h : Labelled j q s) (hs : Step j q s e s') : Labelled j q s' := by
  cases hs with
  | refused | untaken => exact h
  | stored | unpushed => exact { h with }
  | @pushed n _ a data redis hn hd hv hl =>
    refine { h with waiting := ?_ }
    rw [hl]
    intro x hx
    rcases List.mem_cons.mp hx with rfl | hx
    · exact ⟨_, j.submissionID.unmarshal_marshal _ _ hd, rfl, (by decide : (0 : UInt8) < maxDeliveryAttempts)⟩
    · exact h.waiting x hx
  | unreadable hl hu =>
    obtain ⟨id, hid, -⟩ := h.waiting _ (hl ▸ List.mem_append_right _ List.mem_cons_self)
    rw [hu] at hid; cases hid
  | taken hl hu hv hl' =>
    obtain ⟨id, hid, hpair, hlt⟩ := h.waiting _ (hl ▸ List.mem_append_right _ List.mem_cons_self)
    rw [hu] at hid; cases hid
    refine { h with waiting := ?_, fetching := forall_mem_concat h.fetching ⟨hpair, hlt⟩ }
    rw [hl']
    exact fun x hx => h.waiting x (hl ▸ List.mem_append_left _ hx)
  | unfetched hn =>
    have hx := h.fetching _ (List.mem_of_getElem? hn)
    exact { h with
      fetching := forall_mem_eraseIdx _ h.fetching
      unfetched := forall_mem_concat h.unfetched hx.1 }
  | fetched hn hid hq =>
    have hx := h.fetching _ (List.mem_of_getElem? hn)
    subst hid
    exact { h with
      fetching := forall_mem_eraseIdx _ h.fetching
      inFlight := forall_mem_concat h.inFlight ⟨hx.1, hx.2, hq⟩
      handed := forall_mem_concat h.handed hx.1 }
  | committed hn hr =>
    have hx := h.inFlight _ (List.mem_of_getElem? hn)
    exact { h with
      waiting := by rw [hr.queueList_eq]; exact h.waiting
      inFlight := forall_mem_eraseIdx _ h.inFlight
      committed := forall_mem_concat h.committed hx.1 }
  | givenUp hn hr =>
    have hx := h.inFlight _ (List.mem_of_getElem? hn)
    exact { h with
      waiting := by rw [hr.queueList_eq]; exact h.waiting
      inFlight := forall_mem_eraseIdx _ h.inFlight
      givenUp := forall_mem_concat h.givenUp hx.1 }
  | requeued hn hlt hd hv hl =>
    obtain ⟨hpair, -, hq⟩ := h.inFlight _ (List.mem_of_getElem? hn)
    rw [hq] at hl
    refine { h with waiting := ?_, inFlight := forall_mem_eraseIdx _ h.inFlight }
    rw [hl]
    exact forall_mem_concat h.waiting ⟨_, j.submissionID.unmarshal_marshal _ _ hd, hpair, hlt⟩

theorem queueList_start (j : Json) (q : QueueID) : queueList j q start.redis = [] := by
  cases q <;> rfl

theorem labelled {s : State} (h : Lts.Reach (system j q) ok s) : Labelled j q s := by
  refine h.invariant (Labelled j q) ?_ fun s e s' _ ih _ hs => ih.step (step_inv hs)
  rintro s rfl
  refine ⟨?_, ?_, ?_, ?_, ?_, ?_, ?_⟩
  · rw [queueList_start]; simp
  all_goals exact fun x hx => by cases hx

/-! ## Actions on their way -/

/-- The actions being pushed, queued, being fetched and in flight. -/
def live (j : Json) (q : QueueID) (s : State) : List Action :=
  s.pushing ++ (queueList j q s.redis).map Prod.snd ++ s.fetching.map Prod.snd ++ s.inFlight.map Prod.snd

/-- What a step does to the actions on their way and to the bodies. -/
inductive Flow (j : Json) (q : QueueID) (s : State) (e : Event) (s' : State) : Prop
  | kept : (live j q s').Subperm (live j q s) → s'.redis.values = s.redis.values → Flow j q s e s'
  | stored {a ok data} : e = .enqueue a ok → j.action.marshal a = .ok data →
      (live j q s').Perm (a :: live j q s) →
      s'.redis.values = s.redis.values.set (bodyKey (submissionID a)) data → Flow j q s e s'
  | removed {a} : (a :: live j q s').Perm (live j q s) →
      s'.redis.values = s.redis.values.delete (bodyKey (submissionID a)) → Flow j q s e s'

theorem count_live (s : State) (a : Action) : (live j q s).count a =
    s.pushing.count a + ((queueList j q s.redis).map Prod.snd).count a + (s.fetching.map Prod.snd).count a +
      (s.inFlight.map Prod.snd).count a := by
  simp only [live, List.count_append]

/-- The delivery of `a` leaves the flight, and nothing else moves. -/
theorem perm_live_landed {s s' : State} {n : Nat} {d : Delivery} {a : Action} (hn : s.inFlight[n]? = some (d, a))
    (hp : s'.pushing = s.pushing) (hq : queueList j q s'.redis = queueList j q s.redis)
    (hf : s'.fetching = s.fetching) (hi : s'.inFlight = s.inFlight.eraseIdx n) :
    (a :: live j q s').Perm (live j q s) := by
  rw [List.perm_iff_count]
  intro b
  have hc := Redelivery.count_map_eraseIdx hn Prod.snd b
  simp only [List.count_cons, count_live, hp, hq, hf, hi, beq_iff_eq] at hc ⊢
  omega

/-- A delivery that ends removes at most its own action's body. -/
theorem flow_landed {s s' : State} {e : Event} {n : Nat} {d : Delivery} {a : Action} (hl : Labelled j q s)
    (hn : s.inFlight[n]? = some (d, a)) (hr : Removed d.id s.redis s'.redis) (hp : s'.pushing = s.pushing)
    (hf : s'.fetching = s.fetching) (hi : s'.inFlight = s.inFlight.eraseIdx n) : Flow j q s e s' := by
  have hperm : (a :: live j q s').Perm (live j q s) := perm_live_landed hn hp hr.queueList_eq hf hi
  rcases hr with hr | hr
  · exact .kept (((List.sublist_cons_self a _).subperm).trans hperm.subperm) (by rw [hr])
  · have hkey : bodyKey d.id = bodyKey (submissionID a) :=
      bodyKey_eq_iff.mpr (hl.inFlight _ (List.mem_of_getElem? hn)).1
    exact .removed hperm (by rw [hr, hkey])

theorem Labelled.flow {s s' : State} {e : Event} (hl : Labelled j q s) (hs : Step j q s e s') : Flow j q s e s' := by
  cases hs with
  | refused | untaken => exact .kept (List.Subperm.refl _) rfl
  | @stored a _ data hd =>
    refine .stored rfl hd ?_ rfl
    rw [List.perm_iff_count]
    intro b
    simp only [count_live, List.count_append, List.count_cons, List.count_nil, queueList_values]
    omega
  | @unpushed n _ a hn =>
    refine .kept (List.subperm_ext_iff.mpr fun b _ => ?_) rfl
    have hle := (List.eraseIdx_sublist s.pushing n).count_le b
    simp only [count_live]
    omega
  | @pushed n _ a data redis hn _ hv hq =>
    refine .kept (List.Perm.subperm (List.perm_iff_count.mpr fun b => ?_)) hv
    have hc := Redelivery.count_map_eraseIdx hn id b
    simp only [count_live, hq, List.map_cons, List.count_cons, List.map_id, id_eq, beq_iff_eq] at hc ⊢
    omega
  | unreadable hq hu =>
    obtain ⟨id, hid, -⟩ := hl.waiting _ (hq ▸ List.mem_append_right _ List.mem_cons_self)
    rw [hu] at hid; cases hid
  | taken hq _ hv hq' =>
    refine .kept (List.Perm.subperm (List.perm_iff_count.mpr fun b => ?_)) hv
    simp only [count_live, hq, hq', List.map_append, List.map_cons, List.map_nil, List.count_append]
    omega
  | unfetched hn =>
    refine .kept (List.subperm_ext_iff.mpr fun b _ => ?_) rfl
    have hc := Redelivery.count_map_eraseIdx hn Prod.snd b
    simp only [count_live]
    omega
  | fetched hn =>
    refine .kept (List.Perm.subperm (List.perm_iff_count.mpr fun b => ?_)) rfl
    have hc := Redelivery.count_map_eraseIdx hn Prod.snd b
    simp only [count_live, List.map_append, List.map_cons, List.map_nil, List.count_append, List.count_cons,
      List.count_nil, beq_iff_eq] at hc ⊢
    omega
  | committed hn hr | givenUp hn hr => exact flow_landed hl hn hr rfl rfl rfl
  | requeued hn _ _ hv hq =>
    rw [(hl.inFlight _ (List.mem_of_getElem? hn)).2.2] at hq
    refine .kept (List.Perm.subperm (List.perm_iff_count.mpr fun b => ?_)) hv
    have hc := Redelivery.count_map_eraseIdx hn Prod.snd b
    simp only [count_live, hq, List.map_append, List.map_cons, List.map_nil, List.count_append, List.count_cons,
      List.count_nil, beq_iff_eq] at hc ⊢
    omega

/-! ## Bodies -/

/-- The stored body of an action is that action. -/
def HasBody (j : Json) (s : State) (a : Action) : Prop :=
  ∃ data, s.redis.values.get? (bodyKey (submissionID a)) = some data ∧ j.action.unmarshal data = .ok a

/-- No body is written under the pair of an action still on its way. -/
def Fresh (j : Json) (q : QueueID) (s : State) : Event → Prop
  | .enqueue a _ => ¬ SharesPair a (live j q s)
  | _ => True

instance (j : Json) (q : QueueID) (s : State) : DecidablePred (Fresh j q s)
  | .enqueue a _ => inferInstanceAs (Decidable (¬ SharesPair a (live j q s)))
  | .push .. | .dequeue .. | .fetch .. | .commit .. | .restore .. => .isTrue trivial

/-- The actions on their way have pairs of their own, and their bodies. -/
structure Bodies (j : Json) (q : QueueID) (s : State) : Prop where
  nodup : ((live j q s).map pairOf).Nodup
  stored : ∀ a ∈ live j q s, HasBody j s a

theorem nodup_map_of_subperm {α β : Type} {f : α → β} {l l' : List α} (h : l.Subperm l') (hn : (l'.map f).Nodup) :
    (l.map f).Nodup := by
  obtain ⟨k, hk, hs⟩ := h
  exact (hk.map f).nodup_iff.mp (hn.sublist (hs.map f))

theorem bodyKey_ne {a b : Action} (h : pairOf a ≠ pairOf b) : bodyKey (submissionID a) ≠ bodyKey (submissionID b) :=
  fun heq => h (bodyKey_eq_iff.mp heq)

theorem Bodies.step {s s' : State} {e : Event} (h : Bodies j q s) (hf : Fresh j q s e) (hs : Flow j q s e s') :
    Bodies j q s' := by
  cases hs with
  | kept hsub hv =>
    refine ⟨nodup_map_of_subperm hsub h.nodup, fun a ha => ?_⟩
    obtain ⟨data, hd, hu⟩ := h.stored a (hsub.subset ha)
    exact ⟨data, by rw [hv]; exact hd, hu⟩
  | @stored a ok data he hd hperm hv =>
    subst he
    have hnew : pairOf a ∉ (live j q s).map pairOf := hf
    refine ⟨((hperm.map pairOf).nodup_iff).mpr (List.nodup_cons.mpr ⟨hnew, h.nodup⟩), fun b hb => ?_⟩
    rcases List.mem_cons.mp (hperm.subset hb) with rfl | hb
    · exact ⟨data, by rw [hv, GoMap.get?_set_self], j.action.unmarshal_marshal _ _ hd⟩
    · obtain ⟨data', hd', hu⟩ := h.stored b hb
      have hne : pairOf b ≠ pairOf a := fun heq => hnew (heq ▸ List.mem_map_of_mem hb)
      exact ⟨data', by rw [hv, GoMap.get?_set_ne _ (bodyKey_ne hne)]; exact hd', hu⟩
  | @removed a hperm hv =>
    have hnodup : ((a :: live j q s').map pairOf).Nodup := ((hperm.map pairOf).nodup_iff).mpr h.nodup
    obtain ⟨hnot, hnodup⟩ := List.nodup_cons.mp hnodup
    refine ⟨hnodup, fun b hb => ?_⟩
    obtain ⟨data, hd, hu⟩ := h.stored b (hperm.subset (List.mem_cons_of_mem _ hb))
    have hne : pairOf b ≠ pairOf a := fun heq => hnot (heq ▸ List.mem_map_of_mem hb)
    exact ⟨data, by rw [hv, GoMap.get?_delete, if_neg (bodyKey_ne hne)]; exact hd, hu⟩

/-- **The body of an action on its way is that action**, in every run whose
writes are fresh. -/
theorem bodies {s : State} (h : Lts.Reach (system j q) (Fresh j q) s) : Bodies j q s := by
  refine h.invariant (Bodies j q) ?_ fun s e s' hr ih he hs => ih.step he ((labelled hr).flow (step_inv hs))
  rintro s rfl
  have hl : live j q start = [] := by simp only [live, queueList_start]; rfl
  exact ⟨by rw [hl]; exact List.nodup_nil, by rw [hl]; exact fun a ha => by cases ha⟩

/-- The body under an ID being fetched is the action the ID was pushed for. -/
theorem Bodies.fetching {s : State} (h : Bodies j q s) (hl : Labelled j q s) {x : ActionSubmissionID × Action}
    (hx : x ∈ s.fetching) :
    ∃ data, s.redis.values.get? (bodyKey x.1) = some data ∧ j.action.unmarshal data = .ok x.2 := by
  have ha : x.2 ∈ live j q s := by
    simp only [live, List.mem_append, List.mem_map]
    exact .inl (.inr ⟨x, hx, rfl⟩)
  have hkey : bodyKey x.1 = bodyKey (submissionID x.2) := bodyKey_eq_iff.mpr (hl.fetching x hx).1
  rw [hkey]
  exact h.stored x.2 ha

/-- Fresh writes, and fetches whose command succeeds. -/
def Smooth (j : Json) (q : QueueID) (s : State) (e : Event) : Prop := Fresh j q s e ∧ ∀ n, e ≠ .fetch n false

/-- Every fetch hands out the action its ID was pushed for. -/
def Delivered (s : State) : Prop := s.unfetched = [] ∧ ∀ x ∈ s.handed, x.1.action = x.2

/-- **What is pushed is what is handed out**, in every run whose writes are
fresh and whose fetches do not fail. -/
theorem delivered {s : State} (h : Lts.Reach (system j q) (Smooth j q) s) : Delivered s := by
  refine h.invariant Delivered ?_ ?_
  · rintro s rfl; exact ⟨rfl, fun x hx => by cases hx⟩
  · intro s e s' hr ih he hs
    have hb := bodies (hr.mono fun _ _ _ h => h.1)
    cases step_inv hs with
    | refused | stored | unpushed | pushed | untaken | unreadable | taken | committed | givenUp | requeued => exact ih
    | @unfetched n ok id a hn hne =>
      obtain ⟨data, hd, hu⟩ := hb.fetching (labelled hr) (List.mem_of_getElem? hn)
      cases ok with
      | false => exact absurd rfl (he.2 n)
      | true => exact absurd (fetchAction_stored hd hu) (hne _)
    | @fetched n ok id a data d hn _ _ hd hu =>
      obtain ⟨data', hd', hu'⟩ := hb.fetching (labelled hr) (List.mem_of_getElem? hn)
      refine ⟨ih.1, forall_mem_concat ih.2 ?_⟩
      rw [hd'] at hd
      cases hd
      exact Except.ok.inj (hu.symm.trans hu')

end TeeProxy.Queue
