/-
Waiting for a result (`WaitOnResponse` and `StoreResponse` of
`internal/service/result/storage.go`).

`StoreResponse` reads, writes and publishes under `mu`; the waiter does not
take `mu`. It fetches, subscribes, fetches again and then waits for a
message. Every Redis command is a step of its own; a read or a write may
fail, and a stored response may expire.

The second fetch takes any failure for "not there". If the read fails while
the response is stored and its message was published before the
subscription, nothing wakes the waiter: it is left to its timeout.
-/
import TeeProxy.Result.Pipeline

namespace TeeProxy.Result

/-- The errors of `FetchResponse`. -/
inductive FetchErr
  | notInStorage
  | reading (e : StorageErr)
  deriving DecidableEq, Repr

def fetchByID (stored : GoMap Queue.Pair ActionResponse) (ok : Bool) (id : Queue.Pair) :
    Except FetchErr ActionResponse :=
  match getResponse stored ok id with
  | .error .notFound => .error .notInStorage
  | .error e => .error (.reading e)
  | .ok response => .ok response

/-- The errors of `WaitOnResponse`. -/
inductive WaitErr
  | subscribing
  | waiting
  | fetching (e : FetchErr)
  deriving DecidableEq, Repr

namespace Wait

/-- Where a call of `StoreResponse` is. -/
inductive Storer
  | called (r : ActionResponse)
  | locked (r : ActionResponse)
  | checked (r : ActionResponse)
  | written (r : ActionResponse)
  | published (r : ActionResponse)
  | returned (r : ActionResponse) (err : Except StoreErr Unit)
  deriving DecidableEq

/-- Where the call of `WaitOnResponse` is. The server may register the
subscription before `Subscribe` returns. -/
inductive Waiter
  | fetching
  | subscribing (active : Bool)
  | unsubscribed
  | rechecking
  | receiving
  | failed
  | notified
  | returned (result : Except WaitErr ActionResponse)
  deriving DecidableEq

/-- The subscription gets what is published. -/
def Waiter.active : Waiter → Bool
  | .subscribing active => active
  | .rechecking | .receiving | .failed | .notified => true
  | .fetching | .unsubscribed | .returned _ => false

/-- The second fetch is still to come. -/
def Waiter.early : Waiter → Bool
  | .fetching | .subscribing _ | .rechecking => true
  | .unsubscribed | .receiving | .failed | .notified | .returned _ => false

/-- What is stored, who holds `mu`, the calls, and the messages the
subscription has got and the waiter has not. -/
structure State where
  stored : GoMap Queue.Pair ActionResponse
  mu : Option Nat
  storers : List Storer
  waiter : Waiter
  pending : Nat

/-- A call of `StoreResponse`, a step of one, an expiration, and the steps of
the waiter. `ok` says whether the command succeeds. -/
inductive Event
  | storeResponse (r : ActionResponse)
  | store (n : Nat) (ok : Bool)
  | expire (id : Queue.Pair)
  | fetch (ok : Bool)
  | register
  | subscribe (ok : Bool)
  | receive (ok : Bool)
  deriving DecidableEq

section System

variable (id : Queue.Pair)

/-- A step of one storing call or of the waiter, or an expiry. -/
def step (s : State) : Event → Option State
  | .storeResponse r => some { s with storers := s.storers ++ [.called r] }
  | .store n ok => match s.storers[n]? with
    | some (.called r) =>
      if s.mu = none then some { s with storers := s.storers.set n (.locked r), mu := some n } else none
    | some (.locked r) =>
      -- the guard, before the write
      match storeResponse ((getResponse s.stored ok (pairOf r)).map some) (.ok ()) r with
      | .error e => some { s with storers := s.storers.set n (.returned r (.error e)), mu := none }
      | .ok () => some { s with storers := s.storers.set n (.checked r) }
    | some (.checked r) => match setResponse ok r with
      | .error e => some { s with storers := s.storers.set n (.returned r (.error (.storing e))), mu := none }
      | .ok () => some { s with storers := s.storers.set n (.written r), stored := s.stored.set (pairOf r) r }
    | some (.written r) => some { s with
        storers := s.storers.set n (.published r)
        pending := if s.waiter.active ∧ pairOf r = id then s.pending + 1 else s.pending }
    | some (.published r) => some { s with storers := s.storers.set n (.returned r (.ok ())), mu := none }
    | some (.returned _ _) | none => none
  | .expire k => some { s with stored := s.stored.delete k }
  | .fetch ok => match s.waiter, fetchByID s.stored ok id with
    | .fetching, .ok r | .unsubscribed, .ok r | .rechecking, .ok r | .failed, .ok r | .notified, .ok r =>
      some { s with waiter := .returned (.ok r) }
    | .fetching, .error _ => some { s with waiter := .subscribing false }
    | .unsubscribed, .error _ => some { s with waiter := .returned (.error .subscribing) }
    | .rechecking, .error _ => some { s with waiter := .receiving }
    -- the attempt after a failed receive
    | .failed, .error _ => some { s with waiter := .returned (.error .waiting) }
    | .notified, .error e => some { s with waiter := .returned (.error (.fetching e)) }
    | .subscribing _, _ | .receiving, _ | .returned _, _ => none
  | .register => match s.waiter with
    | .subscribing false => some { s with waiter := .subscribing true }
    | _ => none
  | .subscribe ok => match s.waiter with
    | .subscribing active =>
      if ok then (if active then some { s with waiter := .rechecking } else none)
      else some { s with waiter := .unsubscribed }
    | _ => none
  | .receive ok => match s.waiter with
    | .receiving =>
      if ok then (if 0 < s.pending then some { s with waiter := .notified, pending := s.pending - 1 } else none)
      else some { s with waiter := .failed }
    | _ => none

/-- Whatever is stored when the waiter is called. -/
def system : Lts.System State Event where
  init s := ∃ stored, s = ⟨stored, none, [], .fetching, 0⟩
  step := step id

end System

/-! ## `StoreResponse` by itself -/

/-- The guard and the write of a call are the two halves of `storeResponse`. -/
theorem storeResponse_eq (existing : Except StorageErr (Option ActionResponse)) (written : Except StorageErr Unit)
    (r : ActionResponse) :
    storeResponse existing written r = match storeResponse existing (.ok ()) r with
      | .error e => .error e
      | .ok () => match written with
        | .error e => .error (.storing e)
        | .ok () => .ok () := by
  cases existing with
  | error e => cases e <;> rfl
  | ok res =>
    cases res with
    | none => rfl
    | some res =>
      simp only [storeResponse]
      split
      · rfl
      · split <;> rfl

/-- **A call that runs by itself** returns what `storeResponse` does and leaves
what it leaves. -/
theorem storeResponse_alone (id : Queue.Pair) {s : State} {n : Nat} {r : ActionResponse}
    (hn : s.storers[n]? = some (.called r)) (hmu : s.mu = none) (getOk setOk : Bool) :
    ∃ events s', (system id).run s events = some s' ∧ s'.mu = none ∧
      s'.storers[n]? = some (.returned r
        (storeResponse ((getResponse s.stored getOk (pairOf r)).map some) (setResponse setOk r) r)) ∧
      s'.stored = match storeResponse ((getResponse s.stored getOk (pairOf r)).map some) (setResponse setOk r) r with
        | .error _ => s.stored
        | .ok () => s.stored.set (pairOf r) r := by
  have hlt : n < s.storers.length := (List.getElem?_eq_some_iff.mp hn).1
  have hset : ∀ (l : List Storer) (st : Storer), n < l.length → (l.set n st)[n]? = some st :=
    fun l st h => List.getElem?_set_self h
  rw [storeResponse_eq]
  cases hguard : storeResponse ((getResponse s.stored getOk (pairOf r)).map some) (.ok ()) r with
  | error e =>
    refine ⟨[.store n true, .store n getOk], ?_⟩
    simp only [Lts.System.run, system, step, hn, hmu, if_true, hset _ _ hlt, hguard]
    exact ⟨_, rfl, rfl, hset _ _ (by simpa using hlt), rfl⟩
  | ok =>
    cases hwrite : setResponse setOk r with
    | error e =>
      refine ⟨[.store n true, .store n getOk, .store n setOk], ?_⟩
      simp only [Lts.System.run, system, step, hn, hmu, if_true, hset, hlt, List.length_set, hguard, hwrite]
      exact ⟨_, rfl, rfl, hset _ _ (by simpa using hlt), rfl⟩
    | ok =>
      refine ⟨[.store n true, .store n getOk, .store n setOk, .store n true, .store n true], ?_⟩
      simp only [Lts.System.run, system, step, hn, hmu, if_true, hset, hlt, List.length_set, hguard, hwrite]
      exact ⟨_, rfl, rfl, hset _ _ (by simpa using hlt), rfl⟩

/-! ## What a step can do -/

/-- The call has written a response for `id`. -/
def Storer.wrote (id : Queue.Pair) : Storer → Prop
  | .written r | .published r | .returned r (.ok ()) => pairOf r = id
  | _ => False

/-- The call has published it. -/
def Storer.notified (id : Queue.Pair) : Storer → Prop
  | .published r | .returned r (.ok ()) => pairOf r = id
  | _ => False

theorem Storer.wrote_of_notified {id : Queue.Pair} {st : Storer} (h : st.notified id) : st.wrote id := by
  unfold notified at h
  split at h
  · exact h
  · exact h
  · cases h

section Inversion

variable {id : Queue.Pair} {s s' : State}

/-- **Everything a step can do** to the calls, the stored response and the
waiter. -/
inductive Step (id : Queue.Pair) (s : State) : Event → State → Prop
  | called {r} : Step id s (.storeResponse r) { s with storers := s.storers ++ [.called r] }
  | moved {n ok st st' mu} : s.storers[n]? = some st → (st'.wrote id → st.wrote id) →
      (st'.notified id → st.notified id) →
      Step id s (.store n ok) { s with storers := s.storers.set n st', mu }
  | written {n ok r} : s.storers[n]? = some (.checked r) →
      Step id s (.store n ok) { s with
        storers := s.storers.set n (.written r), stored := s.stored.set (pairOf r) r }
  | published {n ok r} : s.storers[n]? = some (.written r) →
      Step id s (.store n ok) { s with
        storers := s.storers.set n (.published r)
        pending := if s.waiter.active ∧ pairOf r = id then s.pending + 1 else s.pending }
  | expired {k} : Step id s (.expire k) { s with stored := s.stored.delete k }
  | found {ok r} : s.stored.get? id = some r → Step id s (.fetch ok) { s with waiter := .returned (.ok r) }
  | missed {ok waiter} : (ok = true → s.stored.get? id = none) → (waiter = .receiving → s.waiter = .rechecking) →
      (waiter.early = true → s.waiter.early = true) → (∀ r, waiter ≠ .returned (.ok r)) →
      Step id s (.fetch ok) { s with waiter }
  | went {e waiter} : waiter ≠ .receiving → (waiter.early = true → s.waiter.early = true) →
      (∀ r, waiter ≠ .returned (.ok r)) → (∀ k, e ≠ .expire k) → Step id s e { s with waiter }
  | received : 0 < s.pending → Step id s (.receive true) { s with waiter := .notified, pending := s.pending - 1 }

theorem fetchByID_ok {stored : GoMap Queue.Pair ActionResponse} {ok : Bool} {r : ActionResponse}
    (h : fetchByID stored ok id = .ok r) : stored.get? id = some r := by
  unfold fetchByID getResponse at h
  cases ok with
  | false => cases h
  | true =>
    cases hget : stored.get? id with
    | none => simp [hget] at h
    | some res =>
      simp only [hget, if_true, Except.ok.injEq] at h
      rw [h]

theorem fetchByID_error {stored : GoMap Queue.Pair ActionResponse} {ok : Bool} {e : FetchErr}
    (h : fetchByID stored ok id = .error e) : ok = true → stored.get? id = none := by
  rintro rfl
  cases hget : stored.get? id with
  | none => rfl
  | some res => simp [fetchByID, getResponse, hget] at h

theorem step_inv {e : Event} (h : step id s e = some s') : Step id s e s' := by
  cases e with
  | storeResponse r => cases h; exact .called
  | store n ok =>
    simp only [step] at h
    split at h
    next r hn =>
      split at h
      · cases h; exact .moved hn (fun h => h) (fun h => h)
      · cases h
    next r hn =>
      split at h
      · cases h; exact .moved hn (fun h => h) (fun h => h)
      · cases h; exact .moved hn (fun h => h) (fun h => h)
    next r hn =>
      split at h
      · cases h; exact .moved hn (fun h => h) (fun h => h)
      · cases h; exact .written hn
    next r hn => cases h; exact .published hn
    next r hn => cases h; exact .moved hn (fun h => h) (fun h => h)
    next => cases h
    next => cases h
  | expire k => cases h; exact .expired
  | fetch ok =>
    simp only [step] at h
    split at h
    next hr => cases h; exact .found (fetchByID_ok hr)
    next hr => cases h; exact .found (fetchByID_ok hr)
    next hr => cases h; exact .found (fetchByID_ok hr)
    next hr => cases h; exact .found (fetchByID_ok hr)
    next hr => cases h; exact .found (fetchByID_ok hr)
    next hw he => cases h; exact .missed (fetchByID_error he) (by simp) (by simp [hw, Waiter.early]) (by simp)
    next hw he => cases h; exact .missed (fetchByID_error he) (by simp) (by simp [Waiter.early]) (by simp)
    next hw he => cases h; exact .missed (fetchByID_error he) (fun _ => hw) (by simp [Waiter.early]) (by simp)
    next hw he => cases h; exact .missed (fetchByID_error he) (by simp) (by simp [Waiter.early]) (by simp)
    next hw he => cases h; exact .missed (fetchByID_error he) (by simp) (by simp [Waiter.early]) (by simp)
    next => cases h
    next => cases h
    next => cases h
  | register =>
    simp only [step] at h
    split at h
    next hw => cases h; exact .went (by simp) (by simp [hw, Waiter.early]) (by simp) (by simp)
    next => cases h
  | subscribe ok =>
    simp only [step] at h
    split at h
    next hw =>
      split at h
      · split at h
        · cases h; exact .went (by simp) (by simp [hw, Waiter.early]) (by simp) (by simp)
        · cases h
      · cases h; exact .went (by simp) (by simp [Waiter.early]) (by simp) (by simp)
    next => cases h
  | receive ok =>
    simp only [step] at h
    split at h
    next hw =>
      split at h
      next hok =>
        subst hok
        split at h
        next hpos => cases h; exact .received hpos
        next => cases h
      next => cases h; exact .went (by simp) (by simp [Waiter.early]) (by simp) (by simp)
    next => cases h

end Inversion

/-! ## The waiter wakes up -/

section Wakeup

variable {id : Queue.Pair} {s s' : State}

/-- The read of the second fetch does not fail, and a response stored under
`id` does not expire before it. -/
def Fresh (id : Queue.Pair) (s : State) : Event → Prop
  | .fetch ok => s.waiter = .rechecking → ok = true
  | .expire k => k = id → s.waiter.early = false
  | _ => True

instance (s : State) : (e : Event) → Decidable (Fresh id s e)
  | .fetch ok => inferInstanceAs (Decidable (s.waiter = .rechecking → ok = true))
  | .expire k => inferInstanceAs (Decidable (k = id → s.waiter.early = false))
  | .storeResponse _ | .store _ _ | .register | .subscribe _ | .receive _ => inferInstanceAs (Decidable True)

/-- Until the second fetch, what was written is there; and a waiter that did
not find it then has a message for every response published. -/
structure WaitOK (id : Queue.Pair) (s : State) : Prop where
  stored : s.waiter.early = true → ∀ st ∈ s.storers, st.wrote id → s.stored.get? id ≠ none
  pending : s.waiter = .receiving → ∀ st ∈ s.storers, st.notified id → 0 < s.pending

theorem WaitOK.step {e : Event} (h : WaitOK id s) (hf : Fresh id s e) (hs : Step id s e s') : WaitOK id s' := by
  cases hs with
  | called =>
    refine ⟨fun he st hst hw => ?_, fun hr st hst hw => ?_⟩
    · rcases List.mem_append.mp hst with hst | hst
      · exact h.stored he st hst hw
      · rw [List.mem_singleton.mp hst] at hw
        cases hw
    · rcases List.mem_append.mp hst with hst | hst
      · exact h.pending hr st hst hw
      · rw [List.mem_singleton.mp hst] at hw
        cases hw
  | @moved n ok st st' mu hn hwrote hnotified =>
    have hmem := List.mem_of_getElem? hn
    refine ⟨fun he t ht hw => ?_, fun hr t ht hw => ?_⟩
    · rcases List.mem_or_eq_of_mem_set ht with ht | rfl
      · exact h.stored he t ht hw
      · exact h.stored he st hmem (hwrote hw)
    · rcases List.mem_or_eq_of_mem_set ht with ht | rfl
      · exact h.pending hr t ht hw
      · exact h.pending hr st hmem (hnotified hw)
  | @written n ok r hn =>
    refine ⟨fun he t ht hw => ?_, fun hr t ht hw => ?_⟩
    · rw [GoMap.get?_set]
      split
      · simp
      next hne =>
        rcases List.mem_or_eq_of_mem_set ht with ht | rfl
        · exact h.stored he t ht hw
        · exact absurd (Eq.symm hw) hne
    · rcases List.mem_or_eq_of_mem_set ht with ht | rfl
      · exact h.pending hr t ht hw
      · cases hw
  | @published n ok r hn =>
    refine ⟨fun he t ht hw => ?_, fun hr t ht hw => ?_⟩
    · rcases List.mem_or_eq_of_mem_set ht with ht | rfl
      · exact h.stored he t ht hw
      · exact h.stored he _ (List.mem_of_getElem? hn) hw
    · have hr : s.waiter = .receiving := hr
      -- the subscription of a waiting waiter gets the message
      rcases List.mem_or_eq_of_mem_set ht with ht | rfl
      · have := h.pending hr t ht hw
        dsimp only
        split <;> omega
      · dsimp only
        rw [if_pos ⟨by rw [hr]; rfl, hw⟩]
        omega
  | @expired k =>
    refine ⟨fun he t ht hw => ?_, h.pending⟩
    have hne : id ≠ k := by
      intro heq
      have hlate : s.waiter.early = false := hf heq.symm
      rw [show s.waiter.early = true from he] at hlate
      cases hlate
    rw [GoMap.get?_delete, if_neg hne]
    exact h.stored he t ht hw
  | found => exact ⟨fun he => (by cases he), fun hr => (by cases hr)⟩
  | @missed ok waiter hmiss hrec hearly =>
    refine ⟨fun he => h.stored (hearly he), fun hr st hst hw => ?_⟩
    have hwaiter := hrec hr
    refine absurd (hmiss (hf hwaiter)) (h.stored ?_ st hst (Storer.wrote_of_notified hw))
    rw [hwaiter]
    rfl
  | went hne hearly => exact ⟨fun he => h.stored (hearly he), fun hr => absurd hr hne⟩
  | received => exact ⟨fun he => (by cases he), fun hr => (by cases hr)⟩

theorem waitOK_of_reach (h : Lts.Reach (system id) (Fresh id) s) : WaitOK id s := by
  refine h.invariant (WaitOK id) ?_ fun s e s' _ ih hf hs => ih.step hf (step_inv hs)
  rintro s ⟨stored, rfl⟩
  exact ⟨(fun _ st hst => by cases hst), (fun hr => by cases hr)⟩

/-- **No wake-up is lost** when the second fetch can be read and the response
has not expired by then: with any number of `StoreResponse` calls in any
order, no waiter waits without a message while one of them has stored its
response. And in every run, what the waiter returns without error is the
response stored at that moment. -/
theorem no_lost_wakeup (id : Queue.Pair) :
    (∀ s, Lts.Reach (system id) (Fresh id) s → s.waiter = .receiving →
      (∃ r, .returned r (.ok ()) ∈ s.storers ∧ pairOf r = id) → 0 < s.pending) ∧
    (∀ s e s' r, Lts.Reach (system id) Lts.Free s → step id s e = some s' → s'.waiter = .returned (.ok r) →
      s.waiter = .returned (.ok r) ∨ s'.stored.get? id = some r) := by
  refine ⟨fun s h hr ⟨r, hmem, hid⟩ => (waitOK_of_reach h).pending hr _ hmem hid, fun s e s' r _ hs hret => ?_⟩
  cases step_inv hs with
  | called | moved | written | published | expired => exact .inl hret
  | found hget =>
    cases hret
    exact .inr hget
  | missed _ _ _ hne => exact absurd hret (hne r)
  | went _ _ hne => exact absurd hret (hne r)
  | received => cases hret

end Wakeup

/-! ## Two waiters -/

def plain : ActionResponse := plainResponse 1 .keyInfo [9]

/-- `StoreResponse` of call `n` from its lock to its return. -/
def storing (n : Nat) : List Event := List.replicate 5 (.store n true)

theorem no_lost_wakeup_notified :
    ∃ s, Lts.Reach (system (pairOf plain)) (Fresh (pairOf plain)) s ∧ s.waiter = .receiving ∧
      .returned plain (.ok ()) ∈ s.storers ∧ 0 < s.pending := by
  have hrun : ((system (pairOf plain)).runIf (Fresh (pairOf plain)) ⟨∅, none, [], .fetching, 0⟩
      ([.storeResponse plain, .fetch true, .register, .subscribe true, .fetch true] ++ storing 0)).any (fun s =>
        s.waiter = .receiving ∧ s.storers = [.returned plain (.ok ())]) := by
    decide +kernel
  obtain ⟨s, hs, hend⟩ := (Option.any_eq_true _ _).mp hrun
  obtain ⟨hwaiter, hstorers⟩ := of_decide_eq_true hend
  have hreach : Lts.Reach (system (pairOf plain)) (Fresh (pairOf plain)) s := .of_runIf (.init ⟨∅, rfl⟩) hs
  have hmem : .returned plain (.ok ()) ∈ s.storers := by rw [hstorers]; exact List.mem_singleton_self _
  exact ⟨s, hreach, hwaiter, hmem, (no_lost_wakeup (pairOf plain)).1 s hreach hwaiter ⟨plain, hmem, rfl⟩⟩

/-- The response is stored and published between the first fetch and the
subscription, and the read of the second fetch fails: the waiter waits, no
message is pending, and the response is there. -/
theorem failed_recheck_waits :
    ∃ s, Lts.Reach (system (pairOf plain)) Lts.Free s ∧ s.waiter = .receiving ∧ s.pending = 0 ∧
      .returned plain (.ok ()) ∈ s.storers ∧ s.stored.get? (pairOf plain) = some plain := by
  have hrun : ((system (pairOf plain)).run ⟨∅, none, [], .fetching, 0⟩
      ([.storeResponse plain, .fetch true] ++ storing 0 ++ [.register, .subscribe true, .fetch false])).any (fun s =>
        s.waiter = .receiving ∧ s.pending = 0 ∧ s.storers = [.returned plain (.ok ())] ∧
          s.stored.get? (pairOf plain) = some plain) := by
    decide +kernel
  obtain ⟨s, hs, hend⟩ := (Option.any_eq_true _ _).mp hrun
  obtain ⟨hwaiter, hpending, hstorers, hstored⟩ := of_decide_eq_true hend
  have hmem : .returned plain (.ok ()) ∈ s.storers := by rw [hstorers]; exact List.mem_singleton_self _
  exact ⟨s, .of_run (.init ⟨∅, rfl⟩) (fun _ _ _ => trivial) hs, hwaiter, hpending, hmem, hstored⟩

end Wait

end TeeProxy.Result
