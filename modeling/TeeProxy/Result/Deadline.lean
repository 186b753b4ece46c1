/-
The waiter of `WaitOnResponse` and its deadline
(`internal/service/result/storage.go`).

All reads of the waiter run on the context that carries its timeout: before
the deadline they succeed, after it they fail. So does the "hopeful attempt"
that follows a failed receive, and a receive fails at the deadline at the
latest. `Publish` is best effort, and `Subscribe` and the subscription can
break at any time.

A waiter in `receive` whose message is lost is woken by its deadline, and then
it cannot read the response any more (`lost_message_not_returned`). A message
that is lost before that does no harm, nor does one after which the
subscription breaks or another message comes. The waiter returns the response
if it is not left in `receive` with its message lost until the deadline,
nothing breaks before the response is stored, and the deadline leaves it the
time for its own steps.
-/
import TeeProxy.Result.Wait

namespace TeeProxy.Result.Wait

/-- The calls, whether the waiter's deadline has passed, and of the past:
whether a message for it was lost while it was in `receive`. -/
structure Timed where
  base : State
  expired : Bool
  missed : Bool

/-- A step of the calls, a `Publish` of call `n` that fails, the deadline. -/
inductive TimedEvent
  | run (e : Event)
  | publishLost (n : Nat)
  | timeout
  deriving DecidableEq

section System

variable (id : Queue.Pair)

/-- A read on an expired context fails, and a message that is lost wakes nobody. -/
def timedStep (s : Timed) : TimedEvent → Option Timed
  | .run e =>
    -- the waiter reads on its own context
    if ∀ ok, e = .fetch ok → ok = !s.expired then (step id s.base e).map fun base => { s with base }
    else none
  | .publishLost n => match s.base.storers[n]? with
    | some (.written r) => some { s with
        base := { s.base with storers := s.base.storers.set n (.published r) }
        missed := s.missed || decide (s.base.waiter = .receiving ∧ pairOf r = id) }
    | _ => none
  | .timeout => if s.expired then none else some { s with expired := true }

/-- Whatever is stored when the waiter is called. -/
def timed : Lts.System Timed TimedEvent where
  init s := ∃ stored, s = ⟨⟨stored, none, [], .fetching, 0⟩, false, false⟩
  step := timedStep id

end System

/-- The call has returned nil for `id`. -/
def Storer.done (id : Queue.Pair) : Storer → Prop
  | .returned r (.ok ()) => pairOf r = id
  | _ => False

instance (id : Queue.Pair) : DecidablePred (Storer.done id)
  | .returned _ (.ok ()) => inferInstanceAs (Decidable (_ = _))
  | .called _ | .locked _ | .checked _ | .written _ | .published _ | .returned _ (.error _) => .isFalse fun h => h

theorem Storer.notified_of_done {id : Queue.Pair} {st : Storer} (h : st.done id) : st.notified id := by
  unfold done at h
  split at h
  · exact h
  · exact h.elim

/-- A `StoreResponse` for `id` has returned nil. -/
def Stored (id : Queue.Pair) (s : State) : Prop := ∃ st ∈ s.storers, st.done id

instance (id : Queue.Pair) (s : State) : Decidable (Stored id s) := by unfold Stored; infer_instance

/-- The deadline passes only after a `StoreResponse` for `id` has returned nil,
and what it stored does not expire. -/
def InTime (id : Queue.Pair) (s : Timed) : TimedEvent → Prop
  | .timeout => Stored id s.base
  | .run (.expire k) => k ≠ id
  | _ => True

instance (id : Queue.Pair) (s : Timed) : DecidablePred (InTime id s)
  | .timeout => inferInstanceAs (Decidable (Stored id s.base))
  | .run (.expire k) => inferInstanceAs (Decidable (k ≠ id))
  | .run (.storeResponse _) | .run (.store _ _) | .run (.fetch _) | .run .register | .run (.subscribe _)
  | .run (.receive _) | .publishLost _ => .isTrue trivial

/-- The waiter has returned, or waits without a message. -/
def Waiter.idle : Waiter → Nat → Prop
  | .returned _, _ => True
  | .receiving, pending => pending = 0
  | _, _ => False

instance (pending : Nat) : (w : Waiter) → Decidable (w.idle pending)
  | .returned _ => .isTrue trivial
  | .receiving => inferInstanceAs (Decidable (pending = 0))
  | .fetching | .subscribing _ | .unsubscribed | .rechecking | .failed | .notified => .isFalse fun h => h

/-- Nothing breaks before a response is stored, and the deadline does not pass
while the waiter has a step to make, or is in `receive` and its message was
lost. -/
def Heard (id : Queue.Pair) (s : Timed) : TimedEvent → Prop
  | .run (.subscribe false) | .run (.receive false) => s.base.stored.get? id ≠ none
  | .timeout => s.base.waiter.idle s.base.pending ∧ (s.base.waiter = .receiving → s.missed = false)
  | _ => True

instance (id : Queue.Pair) (s : Timed) : DecidablePred (Heard id s)
  | .run (.subscribe false) | .run (.receive false) => inferInstanceAs (Decidable (s.base.stored.get? id ≠ none))
  | .timeout =>
    inferInstanceAs (Decidable (s.base.waiter.idle s.base.pending ∧ (s.base.waiter = .receiving → s.missed = false)))
  | .run (.storeResponse _) | .run (.store _ _) | .run (.fetch _) | .run .register | .run (.subscribe true)
  | .run (.receive true) | .run (.expire _) | .publishLost _ => .isTrue trivial

/-! ## What a waiter can count on -/

section Invariant

variable {id : Queue.Pair} {s s' : State}

/-- A response that was written is there, and a message tells of one. -/
structure Held (id : Queue.Pair) (s : State) : Prop where
  wrote : ∀ st ∈ s.storers, st.wrote id → s.stored.get? id ≠ none
  pending : 0 < s.pending → s.stored.get? id ≠ none

/-- A response for `id` that does not expire stays, or is replaced by another. -/
theorem stored_step {e : Event} (hs : Step id s e s') (hexpire : e ≠ .expire id) (h : s.stored.get? id ≠ none) :
    s'.stored.get? id ≠ none := by
  cases hs with
  | called | moved | published | found | missed | went | received => exact h
  | written =>
    rw [GoMap.get?_set]
    split
    · simp
    · exact h
  | @expired k => rw [GoMap.get?_delete, if_neg fun heq => hexpire (by rw [heq])]; exact h

/-- A call that moves on has written no more than before. -/
theorem Held.wrote_set (h : Held id s) {n : Nat} {st st' : Storer} (hn : s.storers[n]? = some st)
    (hwrote : st'.wrote id → st.wrote id) : ∀ x ∈ s.storers.set n st', x.wrote id → s.stored.get? id ≠ none := by
  intro x hx hw
  rcases List.mem_or_eq_of_mem_set hx with hx | rfl
  · exact h.wrote x hx hw
  · exact h.wrote st (List.mem_of_getElem? hn) (hwrote hw)

theorem Held.step {e : Event} (h : Held id s) (hs : Step id s e s') (hexpire : e ≠ .expire id) : Held id s' := by
  have hkeep := stored_step hs hexpire
  cases hs with
  | called =>
    refine ⟨fun st hst hw => ?_, h.pending⟩
    rcases List.mem_append.mp hst with hst | hst
    · exact h.wrote st hst hw
    · rw [List.mem_singleton.mp hst] at hw; cases hw
  | moved hn hwrote => exact ⟨h.wrote_set hn hwrote, h.pending⟩
  | @written n ok r hn =>
    refine ⟨fun st hst hw => ?_, fun hp => hkeep (h.pending hp)⟩
    rcases List.mem_or_eq_of_mem_set hst with hst | rfl
    · exact hkeep (h.wrote st hst hw)
    · obtain rfl : pairOf r = id := hw
      simp
  | @published n ok r hn =>
    refine ⟨h.wrote_set hn fun hw => hw, fun hp => ?_⟩
    dsimp only at hp
    split at hp
    next hid => exact h.wrote _ (List.mem_of_getElem? hn) hid.2
    next => exact h.pending hp
  | expired => exact ⟨fun st hst hw => hkeep (h.wrote st hst hw), fun hp => hkeep (h.pending hp)⟩
  | found | missed | went => exact ⟨h.wrote, h.pending⟩
  | received hpos => exact ⟨h.wrote, fun _ => h.pending hpos⟩

/-- A `Publish` that fails changes nothing but where its call is. -/
theorem Held.publishLost {n : Nat} {r : ActionResponse} (h : Held id s) (hn : s.storers[n]? = some (.written r)) :
    Held id { s with storers := s.storers.set n (.published r) } :=
  ⟨h.wrote_set hn fun hw => hw, h.pending⟩

/-- The waiter makes its own steps. -/
def Event.waits : Event → Bool
  | .fetch _ | .register | .subscribe _ | .receive _ => true
  | .storeResponse _ | .store _ _ | .expire _ => false

/-- The waiter makes its own steps, and nothing fails. -/
def Event.succeeds : Event → Bool
  | .fetch ok | .subscribe ok | .receive ok => ok
  | .register => true
  | .storeResponse _ | .store _ _ | .expire _ => false

theorem step_of_returned {e : Event} {result : Except WaitErr ActionResponse} (he : e.waits = true)
    (hw : s.waiter = .returned result) : step id s e = none := by
  cases e with
  | storeResponse | store | expire => cases he
  | fetch | register | subscribe | receive => simp only [step, hw]

theorem waiter_eq {e : Event} (he : e.waits = false) (h : step id s e = some s') : s'.waiter = s.waiter := by
  cases e with
  | storeResponse | expire => cases h; rfl
  | store n ok =>
    simp only [step] at h
    split at h
    · split at h
      · cases h; rfl
      · cases h
    · split at h <;> cases h <;> rfl
    · split at h <;> cases h <;> rfl
    · cases h; rfl
    · cases h; rfl
    · cases h
    · cases h
  | fetch | register | subscribe | receive => cases he

/-- Where a waiter can be that was told of a response or gave up on being told:
the response is there, and it has not returned an error. -/
def Waiter.Good (stored : Prop) : Waiter → Prop
  | .unsubscribed | .failed | .notified => stored
  | .returned (.error _) => False
  | _ => True

/-- **A step of the waiter before its deadline**: it finds the response if that
is there. -/
theorem good_step {e : Event} (he : e.waits = true) (hread : e ≠ .fetch false)
    (hbreak : e = .subscribe false ∨ e = .receive false → s.stored.get? id ≠ none) (hheld : Held id s)
    (h : s.waiter.Good (s.stored.get? id ≠ none)) (hs : step id s e = some s') :
    s'.waiter.Good (s'.stored.get? id ≠ none) := by
  cases e with
  | storeResponse | store | expire => cases he
  | fetch ok =>
    obtain rfl : ok = true := by
      cases ok with
      | true => rfl
      | false => exact absurd rfl hread
    simp only [step] at hs
    split at hs
    iterate 5 next => cases hs; trivial
    next hmiss => cases hs; trivial
    next hw hmiss => rw [hw] at h; exact absurd (fetchByID_error hmiss rfl) h
    next => cases hs; trivial
    next hw hmiss => rw [hw] at h; exact absurd (fetchByID_error hmiss rfl) h
    next hw hmiss => rw [hw] at h; exact absurd (fetchByID_error hmiss rfl) h
    next => cases hs
    next => cases hs
    next => cases hs
  | register =>
    simp only [step] at hs
    split at hs
    · cases hs; trivial
    · cases hs
  | subscribe ok =>
    simp only [step] at hs
    split at hs
    · split at hs
      · split at hs
        · cases hs; trivial
        · cases hs
      next hok => cases hs; exact hbreak (.inl (by simpa using hok))
    · cases hs
  | receive ok =>
    simp only [step] at hs
    split at hs
    · split at hs
      · split at hs
        next hpos => cases hs; exact hheld.pending hpos
        · cases hs
      next hok => cases hs; exact hbreak (.inr (by simpa using hok))
    · cases hs

theorem Waiter.Good.mono {p q : Prop} (hpq : p → q) {w : Waiter} (h : w.Good p) : w.Good q := by
  unfold Waiter.Good at h ⊢
  split <;> first | exact hpq h | exact h | trivial

end Invariant

/-! ## Runs -/

section Runs

variable {id : Queue.Pair} {s s' : Timed}

/-- The waiter's deadline has not passed before it returns, and it has been
told of what is stored. -/
structure Timely (id : Queue.Pair) (s : Timed) : Prop where
  wait : s.missed = false → WaitOK id s.base
  held : Held id s.base
  good : s.base.waiter.Good (s.base.stored.get? id ≠ none)
  expired : s.expired = true → ∃ result, s.base.waiter = .returned result

/-- Once a response is stored, a waiter that is idle has returned, or its
message was lost in `receive`. -/
theorem Timely.returned_of_idle (h : Timely id s) (hstored : Stored id s.base)
    (hidle : s.base.waiter.idle s.base.pending) :
    (∃ result, s.base.waiter = .returned result) ∨
      s.base.waiter = .receiving ∧ s.base.pending = 0 ∧ s.missed = true := by
  obtain ⟨st, hmem, hdone⟩ := hstored
  unfold Waiter.idle at hidle
  split at hidle
  next result hw => exact .inl ⟨_, hw⟩
  next hw =>
    refine .inr ⟨hw, hidle, ?_⟩
    by_contra hheard
    have hpos := (h.wait (by simpa using hheard)).pending hw st hmem (Storer.notified_of_done hdone)
    omega
  next => exact hidle.elim

theorem Timely.run {e : Event} (h : Timely id s) (htime : InTime id s (.run e)) (hheard : Heard id s (.run e))
    (hread : ∀ ok, e = .fetch ok → ok = !s.expired) {base : State} (hs : step id s.base e = some base) :
    Timely id { s with base } := by
  have hexpire : e ≠ .expire id := by rintro rfl; exact htime rfl
  -- past the deadline the waiter has returned, and makes no step
  have hbefore : e.waits = true → s.expired = false := by
    intro he
    by_contra hnot
    obtain ⟨result, hw⟩ := h.expired (by simpa using hnot)
    rw [step_of_returned he hw] at hs
    cases hs
  have hok : e ≠ .fetch false := by
    rintro rfl
    have := hread false rfl
    simp [hbefore rfl] at this
  have hfresh : Fresh id s.base e := by
    cases e with
    | fetch ok =>
      intro _
      cases ok with
      | true => rfl
      | false => exact absurd rfl hok
    | expire k => exact fun heq => absurd heq htime
    | storeResponse | store | register | subscribe | receive => trivial
  have hstep := step_inv hs
  refine ⟨fun hmissed => (h.wait hmissed).step hfresh hstep, h.held.step hstep hexpire, ?_, fun hexp => ?_⟩
  · cases he : e.waits with
    | true =>
      refine good_step he hok ?_ h.held h.good hs
      rintro (rfl | rfl) <;> exact hheard
    | false =>
      dsimp only
      rw [waiter_eq he hs]
      exact h.good.mono (stored_step hstep hexpire)
  · cases he : e.waits with
    | true => rw [show s.expired = true from hexp] at hbefore; cases hbefore he
    | false => dsimp only; rw [waiter_eq he hs]; exact h.expired hexp

theorem Timely.step {e : TimedEvent} (h : Timely id s) (htime : InTime id s e) (hheard : Heard id s e)
    (hs : timedStep id s e = some s') : Timely id s' := by
  cases e with
  | run e =>
    simp only [timedStep] at hs
    split at hs
    next hread =>
      obtain ⟨base, hb, rfl⟩ := Option.map_eq_some_iff.mp hs
      exact h.run htime hheard hread hb
    next => cases hs
  | publishLost n =>
    simp only [timedStep] at hs
    split at hs
    next r hn =>
      cases hs
      refine ⟨fun hmissed => ⟨fun he st hst hw => (h.held.publishLost hn).wrote st hst hw, fun hr st hst hw => ?_⟩,
        h.held.publishLost hn, h.good, h.expired⟩
      obtain ⟨hbefore, hnow⟩ := Bool.or_eq_false_iff.mp hmissed
      rcases List.mem_or_eq_of_mem_set hst with hst | rfl
      · exact (h.wait hbefore).pending hr st hst hw
      · exact absurd ⟨hr, hw⟩ (of_decide_eq_false hnow)
    next => cases hs
  | timeout =>
    simp only [timedStep] at hs
    split at hs
    · cases hs
    · cases hs
      refine ⟨h.wait, h.held, h.good, fun _ => (h.returned_of_idle htime hheard.1).resolve_right ?_⟩
      rintro ⟨hreceiving, -, hmissed⟩
      rw [hheard.2 hreceiving] at hmissed
      cases hmissed

theorem timely_of_reach (h : Lts.Reach (timed id) (fun s e => InTime id s e ∧ Heard id s e) s) : Timely id s := by
  refine h.invariant (Timely id) ?_ fun s e s' _ ih he hs => ih.step he.1 he.2 hs
  rintro s ⟨stored, rfl⟩
  refine ⟨fun _ => ⟨fun _ st hst => ?_, fun hr => ?_⟩, ⟨fun st hst => ?_, fun hp => ?_⟩, trivial, fun hexp => ?_⟩
  · cases hst
  · cases hr
  · cases hst
  · exact absurd hp (by simp)
  · cases hexp

/-- From any state of the waiter that has not returned, its own steps find a
response that is there. -/
theorem completes (h : Timely id s) {r : ActionResponse} (hstored : s.base.stored.get? id = some r)
    (hreturned : ∀ result, s.base.waiter ≠ .returned result) (hidle : ¬ s.base.waiter.idle s.base.pending) :
    ∃ (events : List Event) (s' : Timed), (∀ e ∈ events, e.succeeds = true) ∧
      (timed id).run s (events.map .run) = some s' ∧ s'.base.waiter = .returned (.ok r) := by
  have hexpired : s.expired = false := by
    by_contra hnot
    obtain ⟨result, hw⟩ := h.expired (by simpa using hnot)
    exact hreturned result hw
  have hfetch : fetchByID s.base.stored true id = .ok r := by simp [fetchByID, getResponse, hstored]
  cases hw : s.base.waiter with
  | returned result => exact absurd hw (hreturned result)
  | fetching | unsubscribed | rechecking | failed | notified =>
    refine ⟨[.fetch true], { s with base := { s.base with waiter := .returned (.ok r) } }, by simp [Event.succeeds],
      ?_, rfl⟩
    simp [Lts.System.run, timed, timedStep, step, hexpired, hw, hfetch]
  | subscribing active =>
    have hwaits : ∀ e ∈ [Event.register, .subscribe true, .fetch true], e.succeeds = true := by simp [Event.succeeds]
    have hend : ∃ events : List Event, (∀ e ∈ events, e.succeeds = true) ∧
        (timed id).run s (events.map .run) = some { s with base := { s.base with waiter := .returned (.ok r) } } := by
      cases active with
      | true =>
        refine ⟨[.subscribe true, .fetch true], fun e he => hwaits e (List.mem_cons_of_mem _ he), ?_⟩
        simp [Lts.System.run, timed, timedStep, step, hexpired, hw, hfetch]
      | false =>
        refine ⟨[.register, .subscribe true, .fetch true], hwaits, ?_⟩
        simp [Lts.System.run, timed, timedStep, step, hexpired, hw, hfetch]
    obtain ⟨events, hall, hrun⟩ := hend
    exact ⟨events, _, hall, hrun, rfl⟩
  | receiving =>
    have hpos : 0 < s.base.pending := by
      rw [hw] at hidle
      exact Nat.pos_of_ne_zero hidle
    refine ⟨[.receive true, .fetch true],
      { s with base := { s.base with waiter := .returned (.ok r), pending := s.base.pending - 1 } },
      by simp [Event.succeeds], ?_, rfl⟩
    simp [Lts.System.run, timed, timedStep, step, hexpired, hw, hfetch, hpos]

/-- **A stored response is returned unless the waiter is left waiting for a lost
message.** In every run in which the deadline passes only after a
`StoreResponse` has returned nil, nothing breaks before it is stored, the
deadline leaves the waiter the time for its own steps, and does not find it in
`receive` with its message lost: the waiter returns no error; when it returns,
it returns what is stored at that moment; past the deadline it has returned a
response; and once a `StoreResponse` has returned nil, it has returned, its
own steps get it there, or it is in `receive` with its message lost and the
deadline has not passed. -/
theorem stored_response_returned (h : Lts.Reach (timed id) (fun s e => InTime id s e ∧ Heard id s e) s) :
    (∀ err, s.base.waiter ≠ .returned (.error err)) ∧
    (∀ e s' r, (timed id).step s e = some s' → s'.base.waiter = .returned (.ok r) →
      s.base.waiter = .returned (.ok r) ∨ s'.base.stored.get? id = some r) ∧
    (s.expired = true → ∃ r, s.base.waiter = .returned (.ok r)) ∧
    (Stored id s.base → (∃ r, s.base.waiter = .returned (.ok r)) ∨
      (∃ (events : List Event) (s' : Timed) (r : ActionResponse), (∀ e ∈ events, e.succeeds = true) ∧
        (timed id).run s (events.map .run) = some s' ∧ s'.base.waiter = .returned (.ok r) ∧
        s.base.stored.get? id = some r) ∨
      s.base.waiter = .receiving ∧ s.missed = true ∧ s.expired = false) := by
  have htimely := timely_of_reach h
  have hnoError : ∀ err, s.base.waiter ≠ .returned (.error err) := fun err hw => by
    have hgood := htimely.good
    rw [hw] at hgood
    exact hgood
  have hreturned : (∃ result, s.base.waiter = .returned result) → ∃ r, s.base.waiter = .returned (.ok r) := by
    rintro ⟨result, hw⟩
    cases result with
    | ok r => exact ⟨r, hw⟩
    | error err => exact absurd hw (hnoError err)
  refine ⟨hnoError, fun e s' r hs hret => ?_, fun hexp => hreturned (htimely.expired hexp), fun hstored => ?_⟩
  · cases e with
    | run e =>
      simp only [timed, timedStep] at hs
      split at hs
      · obtain ⟨base, hb, rfl⟩ := Option.map_eq_some_iff.mp hs
        cases step_inv hb with
        | called | moved | written | published | expired => exact .inl hret
        | found hget => cases hret; exact .inr hget
        | missed _ _ _ hne => exact absurd hret (hne r)
        | went _ _ hne => exact absurd hret (hne r)
        | received => cases hret
      · cases hs
    | publishLost n =>
      simp only [timed, timedStep] at hs
      split at hs
      · cases hs; exact .inl hret
      · cases hs
    | timeout =>
      simp only [timed, timedStep] at hs
      split at hs
      · cases hs
      · cases hs; exact .inl hret
  · by_cases hback : ∃ result, s.base.waiter = .returned result
    · exact .inl (hreturned hback)
    have hbefore : s.expired = false := by
      by_contra hexp
      exact hback (htimely.expired (by simpa using hexp))
    by_cases hidle : s.base.waiter.idle s.base.pending
    · rcases htimely.returned_of_idle hstored hidle with hw | ⟨hw, -, hmissed⟩
      · exact absurd hw hback
      · exact .inr (.inr ⟨hw, hmissed, hbefore⟩)
    · obtain ⟨st, hmem, hdone⟩ : ∃ st ∈ s.base.storers, st.done id := hstored
      have hwrote : st.wrote id := Storer.wrote_of_notified (Storer.notified_of_done hdone)
      obtain ⟨r, hr⟩ := Option.ne_none_iff_exists'.mp (htimely.held.wrote st hmem hwrote)
      obtain ⟨events, s', hevents, hrun, hend⟩ := completes htimely hr (fun result hw => hback ⟨result, hw⟩) hidle
      exact .inr (.inl ⟨events, s', r, hevents, hrun, hend, hr⟩)

end Runs

/-! ## One message, lost -/

/-- The waiter has subscribed and waits. -/
def subscribed : List TimedEvent :=
  [.run (.storeResponse plain), .run (.fetch true), .run .register, .run (.subscribe true), .run (.fetch true)]

/-- The response is stored and its message is lost. -/
def unheard : List TimedEvent :=
  subscribed ++ List.replicate 3 (.run (.store 0 true)) ++ [.publishLost 0, .run (.store 0 true)]

/-- The subscription breaks before the deadline. -/
theorem stored_response_returned_broken :
    ∃ s, Lts.Reach (timed (pairOf plain)) (fun s e => InTime (pairOf plain) s e ∧ Heard (pairOf plain) s e) s ∧
      s.missed = true ∧ s.expired = true ∧ ∃ r, s.base.waiter = .returned (.ok r) := by
  have hrun : ((timed (pairOf plain)).runIf (fun s e => InTime (pairOf plain) s e ∧ Heard (pairOf plain) s e)
      ⟨⟨∅, none, [], .fetching, 0⟩, false, false⟩
      (unheard ++ [.run (.receive false), .run (.fetch true), .timeout])).any (fun s =>
        s.missed = true ∧ s.expired = true) := by
    decide +kernel
  obtain ⟨s, hs, hend⟩ := (Option.any_eq_true _ _).mp hrun
  obtain ⟨hmissed, hexpired⟩ := of_decide_eq_true hend
  have hreach : Lts.Reach (timed (pairOf plain))
      (fun s e => InTime (pairOf plain) s e ∧ Heard (pairOf plain) s e) s := .of_runIf (.init ⟨∅, rfl⟩) hs
  exact ⟨s, hreach, hmissed, hexpired, (stored_response_returned hreach).2.2.1 hexpired⟩

/-- The deadline ends the waiter, although the response is there. -/
theorem lost_message_not_returned :
    ∃ s, Lts.Reach (timed (pairOf plain)) (InTime (pairOf plain)) s ∧ Stored (pairOf plain) s.base ∧
      s.base.stored.get? (pairOf plain) = some plain ∧ s.base.waiter = .returned (.error .waiting) := by
  have hrun : ((timed (pairOf plain)).runIf (InTime (pairOf plain)) ⟨⟨∅, none, [], .fetching, 0⟩, false, false⟩
      (unheard ++ [.timeout, .run (.receive false), .run (.fetch false)])).any (fun s =>
        Stored (pairOf plain) s.base ∧ s.base.stored.get? (pairOf plain) = some plain ∧
        s.base.waiter = .returned (.error .waiting)) := by
    decide +kernel
  obtain ⟨s, hs, hend⟩ := (Option.any_eq_true _ _).mp hrun
  exact ⟨s, .of_runIf (.init ⟨∅, rfl⟩) hs, of_decide_eq_true hend⟩

end TeeProxy.Result.Wait
