/-
No action is lost or doubled between `Enqueue` and its `Commit`.

Seen through the actions its IDs were pushed for, the queue is a redelivery
queue (`abstract_step`): what entered is held in one place each. When no two
actions share their pair, the pair tells the action, so the pairs found in
Redis, in the calls and in the deliveries account for every action exactly
once, and every write of a body is fresh.
-/
import TeeProxy.Queue.Bodies

namespace TeeProxy.Queue

variable {j : Json} {q : QueueID} {ok : State → Event → Prop}

/-! ## The queue as a redelivery queue -/

/-- How often an entry was delivered. -/
def attemptOf (j : Json) (data : Bytes) : Nat :=
  match j.submissionID.unmarshal data with
  | .ok id => id.attempt.toNat
  | .error _ => 0

/-- The queue as one that redelivers: an entry with its attempts. -/
def abstract (j : Json) (q : QueueID) (s : State) : Redelivery.State Action where
  waiting := (queueList j q s.redis).map fun x => (x.2, attemptOf j x.1)
  fetching := s.fetching.map fun x => (x.2, x.1.attempt.toNat)
  inFlight := s.inFlight.map fun x => (x.2, x.1.id.attempt.toNat)
  committed := s.committed.map Prod.snd
  givenUp := s.givenUp.map Prod.snd
  missed := s.unfetched.map Prod.snd
  entered := s.enqueued
  handed := s.handed.map Prod.snd

theorem attemptOf_ok {data : Bytes} {id : ActionSubmissionID} (h : j.submissionID.unmarshal data = .ok id) :
    attemptOf j data = id.attempt.toNat := by
  simp only [attemptOf, h]

theorem attemptOf_marshal {data : Bytes} {id : ActionSubmissionID} (h : j.submissionID.marshal id = .ok data) :
    attemptOf j data = id.attempt.toNat := attemptOf_ok (j.submissionID.unmarshal_marshal _ _ h)

/-- One more attempt, below the bound, is one more as a number. -/
theorem toNat_attempt_succ {n : UInt8} (h : n < maxDeliveryAttempts) : (n + 1).toNat = n.toNat + 1 := by
  have : n.toNat < 5 := h
  rw [UInt8.toNat_add, Nat.mod_eq_of_lt]
  · rfl
  · change n.toNat + 1 < 256; omega

theorem abstract_inFlight {s : State} {n : Nat} {d : Delivery} {a : Action} (hn : s.inFlight[n]? = some (d, a)) :
    (abstract j q s).inFlight[n]? = some (a, d.id.attempt.toNat) := by
  simp only [abstract, List.getElem?_map, hn, Option.map_some]

theorem abstract_fetching {s : State} {n : Nat} {id : ActionSubmissionID} {a : Action}
    (hn : s.fetching[n]? = some (id, a)) : (abstract j q s).fetching[n]? = some (a, id.attempt.toNat) := by
  simp only [abstract, List.getElem?_map, hn, Option.map_some]

/-- Which call an event of the redelivery queue is part of: only an `Enqueue`
that was pushing lets an action in, and only a body that cannot be fetched is
missed. -/
inductive Mirrors (j : Json) (q : QueueID) (s : State) : Event → Redelivery.Event Action → Prop
  | enter {n ok a} : s.pushing[n]? = some a → Mirrors j q s (.push n ok) (.enter a)
  | take {cancelled ok} : Mirrors j q s (.dequeue cancelled ok) .take
  | fetch {n ok} : Mirrors j q s (.fetch n ok) (.fetch n)
  | miss {n ok id a} : s.fetching[n]? = some (id, a) → (∀ d, fetchAction j ok q id s.redis ≠ .ok d) →
      Mirrors j q s (.fetch n ok) (.miss n)
  | commit {n ok} : Mirrors j q s (.commit n ok) (.commit n)
  | giveUp {n ok} : Mirrors j q s (.restore n ok) (.giveUp n)
  | putBack {n ok} : Mirrors j q s (.restore n ok) (.putBack n)

/-- **The simulation.** A step is a step of the redelivery queue or leaves it
as it is. -/
theorem abstract_step {s s' : State} {e : Event} (hl : Labelled j q s) (hs : Step j q s e s') :
    abstract j q s' = abstract j q s ∨
      ∃ f, Mirrors j q s e f ∧ Redelivery.Step maxDeliveryAttempts.toNat (abstract j q s) f (abstract j q s') := by
  cases hs with
  | refused | stored | unpushed | untaken => exact .inl rfl
  | @pushed n _ a data redis hn hd hv hq =>
    have habs : abstract j q { s with redis, pushing := s.pushing.eraseIdx n, enqueued := s.enqueued ++ [a] } =
        { abstract j q s with
          waiting := (a, 0) :: (abstract j q s).waiting
          entered := (abstract j q s).entered ++ [a] } := by
      simp only [abstract, hq, List.map_cons, attemptOf_marshal hd]
      rfl
    exact .inr ⟨.enter a, .enter hn, habs ▸ .enter⟩
  | unreadable hq hu =>
    obtain ⟨id, hid, -⟩ := hl.waiting _ (hq ▸ List.mem_append_right _ List.mem_cons_self)
    rw [hu] at hid; cases hid
  | @taken _ _ l data id a redis hq hu hv hq' =>
    have hw : (abstract j q s).waiting = l.map (fun x => (x.2, attemptOf j x.1)) ++ [(a, id.attempt.toNat)] := by
      simp only [abstract, hq, List.map_append, List.map_cons, List.map_nil, attemptOf_ok hu]
    have habs : abstract j q { s with redis, fetching := s.fetching ++ [(id, a)] } =
        { abstract j q s with
          waiting := l.map fun x => (x.2, attemptOf j x.1)
          fetching := (abstract j q s).fetching ++ [(a, id.attempt.toNat)] } := by
      simp only [abstract, hq', List.map_append, List.map_cons, List.map_nil]
    exact .inr ⟨.take, .take, habs ▸ .take hw⟩
  | @unfetched n _ id a hn hne =>
    have hx := abstract_fetching (j := j) (q := q) hn
    have h : Redelivery.Step maxDeliveryAttempts.toNat (abstract j q s) (.miss n) _ := .miss hx
    refine .inr ⟨.miss n, .miss hn hne, ?_⟩
    simpa only [abstract, List.eraseIdx_map, List.map_append, List.map_cons, List.map_nil] using h
  | @fetched n _ id a data d hn hid =>
    subst hid
    have hx := abstract_fetching (j := j) (q := q) hn
    have h : Redelivery.Step maxDeliveryAttempts.toNat (abstract j q s) (.fetch n) _ := .fetch hx
    refine .inr ⟨.fetch n, .fetch, ?_⟩
    simpa only [abstract, List.eraseIdx_map, List.map_append, List.map_cons, List.map_nil] using h
  | @committed n _ redis a d hn hr =>
    have hx := abstract_inFlight (j := j) (q := q) hn
    have h : Redelivery.Step maxDeliveryAttempts.toNat (abstract j q s) (.commit n) _ := .commit hx
    refine .inr ⟨.commit n, .commit, ?_⟩
    simpa only [abstract, hr.queueList_eq, List.eraseIdx_map, List.map_append, List.map_cons, List.map_nil] using h
  | @givenUp n _ redis a d hn hr =>
    have hx := abstract_inFlight (j := j) (q := q) hn
    have h : Redelivery.Step maxDeliveryAttempts.toNat (abstract j q s) (.giveUp n) _ := .giveUp hx
    refine .inr ⟨.giveUp n, .giveUp, ?_⟩
    simpa only [abstract, hr.queueList_eq, List.eraseIdx_map, List.map_append, List.map_cons, List.map_nil] using h
  | @requeued n _ redis a data d hn hlt hd hv hq =>
    have hx := abstract_inFlight (j := j) (q := q) hn
    obtain ⟨-, hbound, hqueue⟩ := hl.inFlight _ (List.mem_of_getElem? hn)
    rw [hqueue] at hq
    have hsucc := toNat_attempt_succ hbound
    have hnext : d.id.attempt.toNat + 1 < maxDeliveryAttempts.toNat := hsucc ▸ hlt
    have h : Redelivery.Step maxDeliveryAttempts.toNat (abstract j q s) (.putBack n) _ := .putBack hx hnext
    refine .inr ⟨.putBack n, .putBack, ?_⟩
    simpa only [abstract, hq, attemptOf_marshal hd, hsucc, List.eraseIdx_map, List.map_append, List.map_cons,
      List.map_nil] using h

/-! ## Distinct pairs -/

/-- The pair of a new `Enqueue` differs from those of the actions enqueued
and of the calls still running. -/
def Distinct (s : State) : Event → Prop
  | .enqueue a _ => ¬ SharesPair a (s.enqueued ++ s.pushing)
  | _ => True

instance (s : State) : DecidablePred (Distinct s)
  | .enqueue a _ => inferInstanceAs (Decidable (¬ SharesPair a (s.enqueued ++ s.pushing)))
  | .push .. | .dequeue .. | .fetch .. | .commit .. | .restore .. => .isTrue trivial

theorem nodup_pairs {s : State} (h : Lts.Reach (system j q) Distinct s) :
    ((s.enqueued ++ s.pushing).map pairOf).Nodup := by
  refine h.invariant (fun s => ((s.enqueued ++ s.pushing).map pairOf).Nodup) ?_ ?_
  · rintro s rfl; exact List.nodup_nil
  · intro s e s' _ ih he hs
    cases step_inv hs with
    | refused | untaken | unreadable | taken | unfetched | fetched | committed | givenUp | requeued => exact ih
    | @stored a ok _ _ =>
      have hperm : (s.enqueued ++ (s.pushing ++ [a])).Perm (a :: (s.enqueued ++ s.pushing)) := by
        rw [← List.append_assoc]; exact List.perm_append_singleton a _
      exact ((hperm.map pairOf).nodup_iff).mpr (List.nodup_cons.mpr ⟨he, ih⟩)
    | @unpushed n _ a hn =>
      exact ih.sublist (((List.Sublist.refl _).append (List.eraseIdx_sublist _ _)).map pairOf)
    | @pushed n _ a _ _ hn =>
      obtain ⟨hlt, rfl⟩ := List.getElem?_eq_some_iff.mp hn
      have hperm : (s.enqueued ++ [s.pushing[n]] ++ s.pushing.eraseIdx n).Perm (s.enqueued ++ s.pushing) := by
        rw [List.append_assoc]
        exact (List.getElem_cons_eraseIdx_perm hlt).append_left _
      exact ((hperm.map pairOf).nodup_iff).mpr ih

/-- A condition on the calls is one on the redelivery queue, if it is so for
each event an event mirrors. -/
theorem abstract_reach_of {okA : Redelivery.State Action → Redelivery.Event Action → Prop}
    (hok : ∀ s e s' f, Lts.Reach (system j q) ok s → ok s e → (system j q).step s e = some s' → Mirrors j q s e f →
      Redelivery.Step maxDeliveryAttempts.toNat (abstract j q s) f (abstract j q s') → okA (abstract j q s) f)
    {s : State} (h : Lts.Reach (system j q) ok s) :
    Lts.Reach (Redelivery.system Action maxDeliveryAttempts.toNat) okA (abstract j q s) := by
  refine h.simulation (abstract j q) ?_ ?_
  · rintro s rfl
    simp only [Redelivery.system, abstract, queueList_start]
    rfl
  · intro s e s' hr _ he hs
    rcases abstract_step (labelled hr) (step_inv hs) with heq | ⟨f, hf, hstep⟩
    · exact .inl heq
    · exact .inr ⟨f, hok s e s' f hr he hs hf hstep, Redelivery.step_iff.mpr hstep⟩

theorem once_of_distinct {s : State} {e : Event} {f : Redelivery.Event Action}
    (hr : Lts.Reach (system j q) Distinct s) (hf : Mirrors j q s e f) : Redelivery.Once (abstract j q s) f := by
  rintro a rfl hmem
  obtain @⟨n, ok, _, hn⟩ := hf
  have hnodup := nodup_pairs hr
  rw [List.map_append] at hnodup
  exact (List.disjoint_of_nodup_append hnodup) (List.mem_map_of_mem hmem)
    (List.mem_map_of_mem (List.mem_of_getElem? hn))

theorem abstract_reach {s : State} (h : Lts.Reach (system j q) Distinct s) :
    Lts.Reach (Redelivery.system Action maxDeliveryAttempts.toNat) Redelivery.Once (abstract j q s) :=
  abstract_reach_of (fun _ _ _ _ hr _ _ hf _ => once_of_distinct hr hf) h

theorem live_subset {s : State} (h : Lts.Reach (system j q) Distinct s) :
    ∀ a ∈ live j q s, a ∈ s.enqueued ++ s.pushing := by
  intro a ha
  have hc : ∀ a ∈ (abstract j q s).held, a ∈ s.enqueued := fun a ha =>
    (Redelivery.conserved (abstract_reach h)).subset ha
  simp only [live, List.mem_append] at ha ⊢
  rcases ha with ((ha | ha) | ha) | ha
  · exact .inr ha
  all_goals
    left
    apply hc
    simp only [Redelivery.State.held, abstract, List.map_map, List.mem_append]
  · exact .inl (.inl (.inl (.inl (.inl ha))))
  · exact .inl (.inl (.inl (.inl (.inr ha))))
  · exact .inl (.inl (.inl (.inr ha)))

theorem fresh_step {s : State} {e : Event} (h : Lts.Reach (system j q) Distinct s) (he : Distinct s e) :
    Fresh j q s e := by
  cases e with
  | push | dequeue | fetch | commit | restore => trivial
  | enqueue a =>
  intro hmem
  refine he ?_
  obtain ⟨b, hb, hpair⟩ := List.mem_map.mp hmem
  exact List.mem_map.mpr ⟨b, live_subset h b hb, hpair⟩

theorem fresh_of_distinct {s : State} (h : Lts.Reach (system j q) Distinct s) : Lts.Reach (system j q) (Fresh j q) s :=
  h.mono fun _ _ hr he => fresh_step hr he

/-! ## Where the actions are -/

/-- The places an enqueued action can be in: `dequeuing` is a `Dequeue` that
has taken the ID and not returned yet, `unfetched` one that returned the
error of its body fetch. -/
inductive Place
  | queued | dequeuing | inFlight | committed | givenUp | unfetched
  deriving DecidableEq, Repr

def queuedIDs (j : Json) (q : QueueID) (s : State) : List ActionSubmissionID :=
  (queueList j q s.redis).filterMap fun x => (j.submissionID.unmarshal x.1).toOption

/-- Every pair in the queue, in the calls and in what they returned, with its
place. -/
def whereabouts (j : Json) (q : QueueID) (s : State) : List (Pair × Place) :=
  (queuedIDs j q s).map (fun id => (id.pair, .queued)) ++
    s.fetching.map (fun x => (x.1.pair, .dequeuing)) ++
    s.inFlight.map (fun x => (x.1.id.pair, .inFlight)) ++
    s.committed.map (fun x => (x.1.id.pair, .committed)) ++
    s.givenUp.map (fun x => (x.1.id.pair, .givenUp)) ++
    s.unfetched.map (fun x => (x.1.pair, .unfetched))

def placesOf (j : Json) (q : QueueID) (s : State) (a : Action) : List Place :=
  ((whereabouts j q s).filter fun x => x.1 = pairOf a).map Prod.snd

theorem filter_fst_eq_singleton {κ π : Type} [DecidableEq κ] {l : List (κ × π)} {k : κ} (hn : (l.map Prod.fst).Nodup)
    (hk : k ∈ l.map Prod.fst) : ∃ p, (l.filter fun x => x.1 = k).map Prod.snd = [p] := by
  induction l with
  | nil => cases hk
  | cons x l ih =>
    obtain ⟨hx, hn⟩ := List.nodup_cons.mp hn
    by_cases hkx : x.1 = k
    · have hnone : l.filter (fun y => y.1 = k) = [] := by
        rw [List.filter_eq_nil_iff]
        intro y hy hyk
        exact hx (List.mem_map.mpr ⟨y, hy, by simpa [hkx] using hyk⟩)
      exact ⟨x.2, by rw [List.filter_cons_of_pos (by simpa using hkx), hnone]; rfl⟩
    · obtain ⟨p, hp⟩ := ih hn ((List.mem_cons.mp hk).resolve_left fun h => hkx h.symm)
      exact ⟨p, by rw [List.filter_cons_of_neg (by simpa using hkx)]; exact hp⟩

theorem Labelled.queuedIDs_pairs {s : State} (h : Labelled j q s) :
    (queuedIDs j q s).map ActionSubmissionID.pair = (queueList j q s.redis).map fun x => pairOf x.2 := by
  rw [queuedIDs, List.map_filterMap, List.filterMap_eq_map_iff_forall_eq_some]
  intro x hx
  obtain ⟨id, hid, hpair, -⟩ := h.waiting x hx
  rw [hid, ← hpair]; rfl

theorem Labelled.whereabouts_pairs {s : State} (h : Labelled j q s) :
    (whereabouts j q s).map Prod.fst = (abstract j q s).held.map pairOf := by
  have hq : (queuedIDs j q s).map (Prod.fst ∘ fun id => (id.pair, Place.queued)) =
      (queueList j q s.redis).map fun x => pairOf x.2 := h.queuedIDs_pairs
  simp only [whereabouts, Redelivery.State.held, abstract, List.map_append, List.map_map, hq]
  congr 1
  · congr 1
    · congr 1
      · congr 1
        · congr 1
          exact List.map_congr_left fun x hx => (h.fetching x hx).1
        · exact List.map_congr_left fun x hx => (h.inFlight x hx).1
      · exact List.map_congr_left fun x hx => h.committed x hx
    · exact List.map_congr_left fun x hx => h.givenUp x hx
  · exact List.map_congr_left fun x hx => h.unfetched x hx

theorem whereabouts_perm {s : State} (h : Lts.Reach (system j q) Distinct s) :
    ((whereabouts j q s).map Prod.fst).Perm (s.enqueued.map pairOf) := by
  rw [(labelled h).whereabouts_pairs]
  exact (Redelivery.conserved (abstract_reach h)).map pairOf

/-- An enqueued action found on its way is the one on its way. -/
theorem mem_live_of_place {s : State} (h : Lts.Reach (system j q) Distinct s) {a : Action} (ha : a ∈ s.enqueued)
    {p : Place} (hp : p ∈ placesOf j q s a) (hlive : p = .queued ∨ p = .dequeuing ∨ p = .inFlight) :
    a ∈ live j q s := by
  have hl := labelled h
  -- The pair is that of some action on its way; both are enqueued, so they are the same.
  suffices hb : ∃ b ∈ live j q s, pairOf b = pairOf a by
    obtain ⟨b, hb, hpair⟩ := hb
    have hinj := List.inj_on_of_nodup_map (nodup_pairs h)
    rw [← hinj (live_subset h b hb) (List.mem_append_left _ ha) hpair]
    exact hb
  obtain ⟨⟨k, p'⟩, hx, rfl⟩ := List.mem_map.mp hp
  obtain ⟨hx, hk⟩ := List.mem_filter.mp hx
  have hk : k = pairOf a := by simpa using hk
  simp only [whereabouts, List.mem_append, List.mem_map, Prod.mk.injEq] at hx
  simp only [live, List.mem_append, List.mem_map]
  rcases hx with ((((hx | hx) | hx) | hx) | hx) | hx
  · obtain ⟨id, hid, rfl, -⟩ := hx
    have hmem : id.pair ∈ (queueList j q s.redis).map fun x => pairOf x.2 :=
      hl.queuedIDs_pairs ▸ List.mem_map_of_mem hid
    obtain ⟨x, hxq, hpair⟩ := List.mem_map.mp hmem
    exact ⟨x.2, .inl (.inl (.inr ⟨x, hxq, rfl⟩)), hpair.trans hk⟩
  · obtain ⟨x, hxf, rfl, -⟩ := hx
    exact ⟨x.2, .inl (.inr ⟨x, hxf, rfl⟩), (hl.fetching x hxf).1.symm.trans hk⟩
  · obtain ⟨x, hxi, rfl, -⟩ := hx
    exact ⟨x.2, .inr ⟨x, hxi, rfl⟩, (hl.inFlight x hxi).1.symm.trans hk⟩
  all_goals
    obtain ⟨-, -, -, rfl⟩ := hx
    simp at hlive

theorem handed_le {s : State} (h : Lts.Reach (system j q) Distinct s) (p : Pair) :
    s.handed.countP (fun x => x.1.id.pair = p) ≤ maxDeliveryAttempts.toNat := by
  have ha := Redelivery.attempts (by decide) (abstract_reach h)
  have hl := labelled h
  by_cases hp : ∃ x ∈ s.handed, x.1.id.pair = p
  · obtain ⟨x, hx, rfl⟩ := hp
    refine le_trans ?_ (ha.handed x.2)
    simp only [abstract, List.count_eq_countP, List.countP_map]
    refine List.countP_mono_left fun y hy hyx => ?_
    have hmem : ∀ z ∈ s.handed, z.2 ∈ s.enqueued ++ s.pushing := fun z hz =>
      List.mem_append_left _ (ha.entered z.2 (List.mem_map_of_mem hz))
    have hpair : pairOf y.2 = pairOf x.2 := by
      rw [← hl.handed y hy, ← hl.handed x hx]; simpa using hyx
    simpa using List.inj_on_of_nodup_map (nodup_pairs h) (hmem y hy) (hmem x hx) hpair
  · have hz : s.handed.countP (fun x => x.1.id.pair = p) = 0 := by
      rw [List.countP_eq_zero]
      exact fun x hx hxp => hp ⟨x, hx, by simpa using hxp⟩
    rw [hz]; exact Nat.zero_le _

/-- **Deliveries are conserved.** In every state of every run with distinct
pairs, whatever commands failed: each action whose `Enqueue` returned nil is
in exactly one place (inside a `Dequeue` only while one is running); an ID
in the queue has attempts left; the body of an action queued or in flight is
stored and is the action enqueued; and no pair was handed out more than
`MaxDeliveryAttempts` times. -/
theorem delivery_conservation {s : State} (h : Lts.Reach (system j q) Distinct s) :
    (∀ a ∈ s.enqueued, ∃ p, placesOf j q s a = [p] ∧ (s.fetching = [] → p ≠ .dequeuing)) ∧
    (∀ x ∈ queueList j q s.redis, ∃ id, j.submissionID.unmarshal x.1 = .ok id ∧ id.attempt < maxDeliveryAttempts) ∧
    (∀ a ∈ s.enqueued, ∀ p ∈ placesOf j q s a, p = .queued ∨ p = .dequeuing ∨ p = .inFlight → HasBody j s a) ∧
    ∀ p, s.handed.countP (fun x => x.1.id.pair = p) ≤ maxDeliveryAttempts.toNat := by
  have hperm := whereabouts_perm h
  have hnodup : (s.enqueued.map pairOf).Nodup := by
    have := nodup_pairs h
    rw [List.map_append] at this
    exact this.of_append_left
  refine ⟨fun a ha => ?_, fun x hx => ?_, fun a ha p hp hlive => ?_, handed_le h⟩
  · obtain ⟨p, hp⟩ := filter_fst_eq_singleton (hperm.nodup_iff.mpr hnodup)
      (hperm.mem_iff.mpr (List.mem_map_of_mem ha))
    refine ⟨p, hp, ?_⟩
    rintro hf rfl
    have hmem : Place.dequeuing ∈ placesOf j q s a := by rw [placesOf, hp]; exact List.mem_cons_self
    simp [placesOf, whereabouts, hf] at hmem
  · obtain ⟨id, hid, -, hlt⟩ := (labelled h).waiting x hx
    exact ⟨id, hid, hlt⟩
  · exact (bodies (fresh_of_distinct h)).stored a (mem_live_of_place h ha hp hlive)

/-! ## A small queue -/

/-- JSON forms of a few actions and of their IDs. -/
def Json.ofTable (table : List Action) : Json where
  action := .ofTable table
  submissionID := .ofTable (table.flatMap fun a =>
    (List.range 5).map fun n => ⟨a.data.id, a.data.submissionTag, UInt8.ofNat n⟩)

/-- An instruction with a message. -/
def plainAction (id : Hash) (message : Bytes) : Action := ⟨⟨id, .instruction, .submit, message⟩, [], [], [], []⟩

/-- An action is delivered, restored and delivered again. -/
def redelivered : List Event :=
  [.enqueue (plainAction 1 [7]) true, .push 0 true, .dequeue false true, .fetch 0 true, .restore 0 true,
    .dequeue false true, .fetch 0 true]

theorem delivery_conservation_redelivered :
    ∃ s, Lts.Reach (system (.ofTable [plainAction 1 [7]]) .main) Distinct s ∧ s.enqueued = [plainAction 1 [7]] ∧
      s.handed.length = 2 ∧ placesOf (.ofTable [plainAction 1 [7]]) .main s (plainAction 1 [7]) = [.inFlight] ∧
      HasBody (.ofTable [plainAction 1 [7]]) s (plainAction 1 [7]) := by
  have hrun : ((system (.ofTable [plainAction 1 [7]]) .main).runIf Distinct start redelivered).any (fun s =>
      s.enqueued = [plainAction 1 [7]] ∧ s.handed.length = 2 ∧
        placesOf (.ofTable [plainAction 1 [7]]) .main s (plainAction 1 [7]) = [.inFlight]) := by decide +kernel
  obtain ⟨s, hs, hend⟩ := (Option.any_eq_true _ _).mp hrun
  obtain ⟨henq, hhanded, hplace⟩ := of_decide_eq_true hend
  have hreach := Lts.Reach.of_runIf (.init rfl) hs
  obtain ⟨-, -, hbody, -⟩ := delivery_conservation hreach
  refine ⟨s, hreach, henq, hhanded, hplace, hbody _ ?_ .inFlight ?_ (.inr (.inr rfl))⟩
  · rw [henq]; exact List.mem_cons_self
  · rw [hplace]; exact List.mem_cons_self

end TeeProxy.Queue
