/-
What is stored under a key after any number of `StoreResponse` calls
(`internal/service/result/storage.go`): the first final response, or else the
first of the greatest status.

Calls run concurrently, each storage command a step of its own that may fail
(`TeeProxy.Result.Wait`). A log is kept beside the run: a call gets its entry
when its last storage command is over, so the log is in the order of the
mutex. The stored response is a function of that log.
-/
import TeeProxy.Lib.Fallible
import TeeProxy.Result.Wait
import Mathlib.Data.List.MinMax

namespace TeeProxy.Result

/-! ## The reference -/

/-- Status 0 and 1 are final. -/
def isFinal (r : ActionResponse) : Bool := r.result.status < 2

/-- The first final response, or else the first of the greatest status. -/
def reference (l : List ActionResponse) : Option ActionResponse :=
  match l.find? isFinal with
  | some r => some r
  | none => l.argmax fun r => r.result.status.toNat

/-- What `StoreResponse` decides on, once it has read what is stored. -/
def guardStore (before : Option ActionResponse) (r : ActionResponse) : Except StoreErr Unit :=
  storeResponse (.ok before) (.ok ()) r

section Guard

variable {before : Option ActionResponse} {r res : ActionResponse} {l : List ActionResponse}

/-- The guard refuses for a stored final response. -/
def RefusedFinal (before : Option ActionResponse) : Prop := ∃ res, before = some res ∧ res.result.status < 2

/-- The guard refuses for a stored response that is as high. -/
def RefusedTransient (before : Option ActionResponse) (r : ActionResponse) : Prop :=
  ∃ res, before = some res ∧ 2 ≤ res.result.status ∧ 2 ≤ r.result.status ∧ r.result.status ≤ res.result.status

theorem guardStore_none : guardStore none r = .ok () := rfl

theorem guardStore_final (h : isFinal res = true) : guardStore (some res) r = .error .overrideFinal := by
  simp only [isFinal, decide_eq_true_eq] at h
  simp [guardStore, storeResponse, h]

theorem guardStore_transient (hres : isFinal res = false) :
    guardStore (some res) r =
      if 2 ≤ r.result.status ∧ r.result.status ≤ res.result.status then .error .overrideTransient else .ok () := by
  simp only [isFinal, decide_eq_false_iff_not] at hres
  simp [guardStore, storeResponse, hres]

/-- **One more response.** The reference changes exactly where the guard lets
the response through. -/
theorem reference_snoc (l : List ActionResponse) (r : ActionResponse) :
    reference (l ++ [r]) = if guardStore (reference l) r = .ok () then some r else reference l := by
  unfold reference
  rw [List.find?_append]
  cases hfind : l.find? isFinal with
  | some f =>
    have hf : isFinal f = true := List.find?_some hfind
    simp [guardStore_final hf]
  | none =>
    have hnone : ∀ x ∈ l, isFinal x = false := fun x hx => by simpa using List.find?_eq_none.mp hfind x hx
    rw [List.argmax_concat]
    cases hmax : l.argmax fun r => r.result.status.toNat with
    | none =>
      cases hr : isFinal r with
      | true => simp [hr, guardStore_none]
      | false => simp [hr, guardStore_none]
    | some c =>
      have hc : isFinal c = false := hnone c (List.argmax_mem hmax)
      rw [guardStore_transient hc]
      cases hr : isFinal r with
      | true =>
        have hlow : r.result.status < 2 := by simpa [isFinal] using hr
        simp [hr, hlow]
      | false =>
        have hhigh : 2 ≤ r.result.status := by simpa [isFinal] using hr
        simp only [List.find?_cons, hr, List.find?_nil, Option.none_or, hhigh, true_and]
        by_cases hle : r.result.status ≤ c.result.status
        · have hnat : ¬ c.result.status.toNat < r.result.status.toNat := not_lt.mpr (UInt8.le_iff_toNat_le.mp hle)
          simp [hle, hnat]
        · have hnat : c.result.status.toNat < r.result.status.toNat := by
            rw [UInt8.le_iff_toNat_le] at hle
            omega
          simp [hle, hnat]

theorem guardStore_cases (before : Option ActionResponse) (r : ActionResponse) :
    guardStore before r = .ok () ∧ ¬ RefusedFinal before ∧ ¬ RefusedTransient before r ∨
    guardStore before r = .error .overrideFinal ∧ RefusedFinal before ∧ ¬ RefusedTransient before r ∨
    guardStore before r = .error .overrideTransient ∧ ¬ RefusedFinal before ∧ RefusedTransient before r := by
  cases before with
  | none => exact .inl ⟨rfl, fun ⟨_, h, _⟩ => (by cases h), fun ⟨_, h, _⟩ => (by cases h)⟩
  | some res =>
    have hfinal : RefusedFinal (some res) ↔ res.result.status < 2 := by simp [RefusedFinal]
    have htransient : RefusedTransient (some res) r ↔
        2 ≤ res.result.status ∧ 2 ≤ r.result.status ∧ r.result.status ≤ res.result.status := by
      simp [RefusedTransient]
    rw [hfinal, htransient]
    cases hres : isFinal res with
    | true =>
      have hlow : res.result.status < 2 := by simpa [isFinal] using hres
      exact .inr (.inl ⟨guardStore_final hres, hlow, fun h => absurd hlow (UInt8.not_lt.mpr h.1)⟩)
    | false =>
      have hhigh : 2 ≤ res.result.status := by simpa [isFinal] using hres
      rw [guardStore_transient hres]
      split
      next h => exact .inr (.inr ⟨rfl, UInt8.not_lt.mpr hhigh, hhigh, h⟩)
      next h => exact .inl ⟨rfl, UInt8.not_lt.mpr hhigh, fun h' => h h'.2⟩

theorem guardStore_final_iff : guardStore before r = .error .overrideFinal ↔ RefusedFinal before := by
  rcases guardStore_cases before r with ⟨h, hf, -⟩ | ⟨h, hf, -⟩ | ⟨h, hf, -⟩ <;> simp [h, hf]

theorem guardStore_transient_iff : guardStore before r = .error .overrideTransient ↔ RefusedTransient before r := by
  rcases guardStore_cases before r with ⟨h, -, ht⟩ | ⟨h, -, ht⟩ | ⟨h, -, ht⟩ <;> simp [h, ht]

theorem ne_self_of_guardStore (h : guardStore before r = .ok ()) : before ≠ some r := by
  rintro rfl
  rcases guardStore_cases (some r) r with ⟨-, hfinal, htransient⟩ | ⟨h', -, -⟩ | ⟨h', -, -⟩
  · have hhigh : 2 ≤ r.result.status := UInt8.not_lt.mp fun hlow => hfinal ⟨r, rfl, hlow⟩
    exact htransient ⟨r, rfl, hhigh, hhigh, UInt8.le_refl _⟩
  · rw [h] at h'; cases h'
  · rw [h] at h'; cases h'

theorem storeResponse_read (stored : GoMap Queue.Pair ActionResponse) (ok : Bool) (r : ActionResponse) :
    ok = true ∧ storeResponse ((getResponse stored ok (pairOf r)).map some) (.ok ()) r =
        guardStore (stored.get? (pairOf r)) r ∨
      ok = false ∧ ∃ e,
        storeResponse ((getResponse stored ok (pairOf r)).map some) (.ok ()) r = .error (.reading e) := by
  cases ok with
  | true =>
    refine .inl ⟨rfl, ?_⟩
    cases hget : stored.get? (pairOf r) with
    | none => simp [getResponse, hget, Except.map, guardStore, storeResponse]
    | some res => simp [getResponse, hget, Except.map, guardStore]
  | false => exact .inr ⟨rfl, _, rfl⟩

end Guard

/-! ## The log of a run -/

namespace Override

open Wait (Storer)

/-- A call whose storage commands are over: whether its read succeeded, what
it returns, and what was stored under its key before and after. -/
structure Entry where
  call : Nat
  response : ActionResponse
  readOk : Bool
  res : Except StoreErr Unit
  before : Option ActionResponse
  after : Option ActionResponse
  deriving DecidableEq

/-- No storage command of the call failed. -/
def Entry.kept (e : Entry) : Bool :=
  match e.res with
  | .error (.reading _) | .error (.storing _) => false
  | _ => true

/-- The responses for a key whose storage commands succeeded, in the order of
the mutex. -/
def succeeded (key : Queue.Pair) (log : List Entry) : List ActionResponse :=
  (log.filter fun e => pairOf e.response = key ∧ e.kept).map Entry.response

/-- The storing calls and the waiter, with a log of the decisions. -/
structure Logged where
  base : Wait.State
  log : List Entry

/-- The call an event settles, between two states. -/
def settles (s t : Wait.State) : Wait.Event → Option Entry
  | .store n ok => match s.storers[n]? with
    | some (.locked r) => match storeResponse ((getResponse s.stored ok (pairOf r)).map some) (.ok ()) r with
      | .error e => some ⟨n, r, ok, .error e, s.stored.get? (pairOf r), t.stored.get? (pairOf r)⟩
      | .ok () => none
    | some (.checked r) => some ⟨n, r, true, (setResponse ok r).mapError .storing, s.stored.get? (pairOf r),
        t.stored.get? (pairOf r)⟩
    | _ => none
  | _ => none

/-- The run of `Wait`, with its log. Nothing is stored under the key at the
start. -/
def system (id key : Queue.Pair) : Lts.System Logged Wait.Event where
  init s := (Wait.system id).init s.base ∧ s.base.stored.get? key = none ∧ s.log = []
  step s e := match Wait.step id s.base e with
    | none => none
    | some t => some ⟨t, s.log ++ (settles s.base t e).toList⟩

/-- Nothing stored under the key expires. -/
def NoExpiry (key : Queue.Pair) (_ : Logged) (e : Wait.Event) : Prop := e ≠ .expire key

/-! ## What a step can do -/

section Inversion

variable {id key : Queue.Pair} {s s' : Logged}

/-- **Everything a step can do** to the calls and the log. -/
inductive Step (id : Queue.Pair) (s : Logged) : Wait.Event → Logged → Prop
  | called {r} : Step id s (.storeResponse r) ⟨{ s.base with storers := s.base.storers ++ [.called r] }, s.log⟩
  | locked {n ok r} : s.base.storers[n]? = some (.called r) → s.base.mu = none →
      Step id s (.store n ok) ⟨{ s.base with storers := s.base.storers.set n (.locked r), mu := some n }, s.log⟩
  | refused {n ok r e} : s.base.storers[n]? = some (.locked r) →
      storeResponse ((getResponse s.base.stored ok (pairOf r)).map some) (.ok ()) r = .error e →
      Step id s (.store n ok) ⟨{ s.base with storers := s.base.storers.set n (.returned r (.error e)), mu := none },
        s.log ++ [⟨n, r, ok, .error e, s.base.stored.get? (pairOf r), s.base.stored.get? (pairOf r)⟩]⟩
  | checked {n ok r} : s.base.storers[n]? = some (.locked r) →
      storeResponse ((getResponse s.base.stored ok (pairOf r)).map some) (.ok ()) r = .ok () →
      Step id s (.store n ok) ⟨{ s.base with storers := s.base.storers.set n (.checked r) }, s.log⟩
  | unwritten {n ok r e} : s.base.storers[n]? = some (.checked r) →
      Step id s (.store n ok)
        ⟨{ s.base with storers := s.base.storers.set n (.returned r (.error (.storing e))), mu := none },
        s.log ++ [⟨n, r, true, .error (.storing e), s.base.stored.get? (pairOf r), s.base.stored.get? (pairOf r)⟩]⟩
  | written {n ok r} : s.base.storers[n]? = some (.checked r) →
      Step id s (.store n ok)
        ⟨{ s.base with storers := s.base.storers.set n (.written r), stored := s.base.stored.set (pairOf r) r },
        s.log ++ [⟨n, r, true, .ok (), s.base.stored.get? (pairOf r), some r⟩]⟩
  | published {n ok r pending} : s.base.storers[n]? = some (.written r) →
      Step id s (.store n ok) ⟨{ s.base with storers := s.base.storers.set n (.published r), pending }, s.log⟩
  | returned {n ok r} : s.base.storers[n]? = some (.published r) →
      Step id s (.store n ok)
        ⟨{ s.base with storers := s.base.storers.set n (.returned r (.ok ())), mu := none }, s.log⟩
  | expired {k} : Step id s (.expire k) ⟨{ s.base with stored := s.base.stored.delete k }, s.log⟩
  | waited {e waiter pending} : Step id s e ⟨{ s.base with waiter, pending }, s.log⟩

theorem step_inv {e : Wait.Event} (h : (system id key).step s e = some s') : Step id s e s' := by
  simp only [system] at h
  split at h
  · cases h
  next t ht =>
  cases h
  cases e with
  | storeResponse r =>
    cases ht
    simp only [settles, Option.toList_none, List.append_nil]
    exact .called
  | store n ok =>
    simp only [Wait.step] at ht
    split at ht
    next r hn =>
      split at ht
      next hmu =>
        cases ht
        simp only [settles, hn, Option.toList_none, List.append_nil]
        exact .locked hn hmu
      · cases ht
    next r hn =>
      split at ht
      next err hguard =>
        cases ht
        simp only [settles, hn, hguard, Option.toList_some]
        exact .refused hn hguard
      next hguard =>
        cases ht
        simp only [settles, hn, hguard, Option.toList_none, List.append_nil]
        exact .checked hn hguard
    next r hn =>
      split at ht
      next err hwrite =>
        cases ht
        simp only [settles, hn, hwrite, Except.mapError, Option.toList_some]
        exact .unwritten hn
      next hwrite =>
        cases ht
        simp only [settles, hn, hwrite, Except.mapError, GoMap.get?_set_self, Option.toList_some]
        exact .written hn
    next r hn =>
      cases ht
      simp only [settles, hn, Option.toList_none, List.append_nil]
      exact .published hn
    next r hn =>
      cases ht
      simp only [settles, hn, Option.toList_none, List.append_nil]
      exact .returned hn
    next => cases ht
    next => cases ht
  | expire k =>
    cases ht
    simp only [settles, Option.toList_none, List.append_nil]
    exact .expired
  | fetch ok =>
    simp only [settles, Option.toList_none, List.append_nil]
    cases Wait.step_inv ht with
    | found | missed | went => exact .waited
  | register =>
    simp only [settles, Option.toList_none, List.append_nil]
    cases Wait.step_inv ht with
    | went => exact .waited
  | subscribe ok =>
    simp only [settles, Option.toList_none, List.append_nil]
    cases Wait.step_inv ht with
    | went => exact .waited
  | receive ok =>
    simp only [settles, Option.toList_none, List.append_nil]
    cases Wait.step_inv ht with
    | received | went => exact .waited

end Inversion

/-! ## The calls and the log -/

/-- The call holds `mu`. -/
def holds : Storer → Bool
  | .locked _ | .checked _ | .written _ | .published _ => true
  | .called _ | .returned _ _ => false

/-- What a call that is over with the storage returns. -/
def answer : Storer → Option (ActionResponse × Except StoreErr Unit)
  | .called _ | .locked _ | .checked _ => none
  | .written r | .published r => some (r, .ok ())
  | .returned r err => some (r, err)

/-- What holds of a call: it has the mutex while it is in its critical section,
what it found when it checked is still stored, and it has its entry in the log
once it is over with the storage, and not before. -/
structure CallOK (s : Logged) (n : Nat) (st : Storer) : Prop where
  mutex : holds st = true → s.base.mu = some n
  checked : ∀ r, st = .checked r → guardStore (s.base.stored.get? (pairOf r)) r = .ok ()
  fresh : answer st = none → n ∉ s.log.map Entry.call
  answered : ∀ p, answer st = some p → ∃ e ∈ s.log, e.call = n ∧ (e.response, e.res) = p

/-- Each call has at most one entry in the log, made when it decided. -/
structure CallsOK (s : Logged) : Prop where
  calls : ∀ n st, s.base.storers[n]? = some st → CallOK s n st
  entered : ∀ e ∈ s.log, e.call < s.base.storers.length
  once : (s.log.map Entry.call).Nodup

section Calls

variable {id key : Queue.Pair} {s s' : Logged} {n m : Nat} {st : Storer} {r : ActionResponse} {e : Entry}

theorem CallsOK.not_holds (h : CallsOK s) (hmu : s.base.mu = none ∨ s.base.mu = some n) (hne : m ≠ n)
    (hm : s.base.storers[m]? = some st) : holds st = false := by
  by_contra hholds
  have hself := (h.calls m st hm).mutex (by simpa using hholds)
  rcases hmu with hmu | hmu
  · rw [hmu] at hself; cases hself
  · rw [hmu] at hself; exact hne (Option.some.inj hself).symm

/-- A call outside the critical section does not care what another one does
there. -/
theorem CallOK.frame (h : CallOK s m st) (hfree : holds st = false) (hne : m ≠ n)
    (hlog : s'.log = s.log ∨ ∃ e, e.call = n ∧ s'.log = s.log ++ [e]) : CallOK s' m st := by
  have hsub : ∀ e ∈ s.log, e ∈ s'.log := by
    intro e he
    rcases hlog with hlog | ⟨e', -, hlog⟩
    · rwa [hlog]
    · rw [hlog]; exact List.mem_append_left _ he
  refine ⟨fun hh => ?_, ?_, fun hnone hmem => ?_, fun p hp => ?_⟩
  · rw [hfree] at hh; cases hh
  · rintro r rfl
    cases hfree
  · have hold := h.fresh hnone
    rcases hlog with hlog | ⟨e, rfl, hlog⟩
    · rw [hlog] at hmem; exact hold hmem
    · rw [hlog, List.map_append, List.mem_append] at hmem
      rcases hmem with hmem | hmem
      · exact hold hmem
      · exact hne (List.mem_singleton.mp hmem)
  · obtain ⟨e, he, heq⟩ := h.answered p hp
    exact ⟨e, hsub e he, heq⟩

/-- A call in its critical section takes a step that settles nothing. -/
theorem CallsOK.move {base : Wait.State} {st' : Storer} (h : CallsOK s) (hmu : s.base.mu = none ∨ s.base.mu = some n)
    (hstorers : base.storers = s.base.storers.set n st') (hself : CallOK ⟨base, s.log⟩ n st') :
    CallsOK ⟨base, s.log⟩ := by
  refine ⟨?_, fun e he => ?_, h.once⟩
  · show ∀ n st, base.storers[n]? = some st → CallOK ⟨base, s.log⟩ n st
    rw [hstorers]
    exact Lts.forall_set hself fun m st hne hm => (h.calls m st hm).frame (h.not_holds hmu hne hm) hne (.inl rfl)
  · show e.call < base.storers.length
    rw [hstorers, List.length_set]
    exact h.entered e he

theorem CallsOK.settle {base : Wait.State} {st' : Storer} (h : CallsOK s) (hmu : s.base.mu = some n)
    (hn : s.base.storers[n]? = some st) (hst : answer st = none) (he : e.call = n)
    (hstorers : base.storers = s.base.storers.set n st') (hans : answer st' = some (e.response, e.res))
    (hholds : holds st' = true → base.mu = some n) : CallsOK ⟨base, s.log ++ [e]⟩ := by
  have hlt : n < s.base.storers.length := (List.getElem?_eq_some_iff.mp hn).1
  refine ⟨?_, fun e' he' => ?_, ?_⟩
  · show ∀ n st, base.storers[n]? = some st → CallOK ⟨base, s.log ++ [e]⟩ n st
    rw [hstorers]
    refine Lts.forall_set ⟨hholds, ?_, fun hnone => ?_, fun p hp => ?_⟩ fun m st hne hm =>
      (h.calls m st hm).frame (h.not_holds (.inr hmu) hne hm) hne (.inr ⟨e, he, rfl⟩)
    · rintro r rfl
      cases hans
    · rw [hans] at hnone; cases hnone
    · rw [hans] at hp
      exact ⟨e, List.mem_append_right _ (List.mem_singleton_self e), he, Option.some.inj hp⟩
  · show e'.call < base.storers.length
    rw [hstorers, List.length_set]
    rcases List.mem_append.mp he' with he' | he'
    · exact h.entered e' he'
    · rw [List.mem_singleton.mp he', he]
      exact hlt
  · rw [List.map_append]
    refine h.once.append (List.nodup_singleton _) (List.disjoint_singleton.mpr ?_)
    rw [he]
    exact (h.calls n st hn).fresh hst

theorem CallsOK.step {ev : Wait.Event} (h : CallsOK s) (hs : Step id s ev s') : CallsOK s' := by
  cases hs with
  | called =>
    refine ⟨Lts.forall_snoc ⟨fun hh => (by cases hh), fun r hr => (by cases hr), fun _ hmem => ?_,
      fun p hp => (by cases hp)⟩ fun m st hm => ?_, fun e he => ?_, h.once⟩
    · obtain ⟨e, he, heq⟩ := List.mem_map.mp hmem
      have hlt := h.entered e he
      rw [heq] at hlt
      exact absurd hlt (lt_irrefl _)
    · have hold := h.calls m st hm
      exact ⟨hold.mutex, hold.checked, hold.fresh, hold.answered⟩
    · have hlt := h.entered e he
      simp only [List.length_append, List.length_singleton]
      omega
  | locked hn hmu =>
    have hold := h.calls _ _ hn
    exact h.move (.inl hmu) rfl ⟨fun _ => rfl, fun r hr => (by cases hr), fun _ => hold.fresh rfl,
      fun p hp => (by cases hp)⟩
  | refused hn hguard =>
    exact h.settle ((h.calls _ _ hn).mutex rfl) hn rfl rfl rfl rfl fun hh => (by cases hh)
  | checked hn hguard =>
    have hold := h.calls _ _ hn
    refine h.move (.inr (hold.mutex rfl)) rfl ⟨fun _ => hold.mutex rfl, ?_, fun _ => hold.fresh rfl,
      fun p hp => (by cases hp)⟩
    rintro r ⟨⟩
    rcases storeResponse_read s.base.stored _ _ with ⟨-, hread⟩ | ⟨-, e, hread⟩
    · rw [hread] at hguard; exact hguard
    · rw [hread] at hguard; cases hguard
  | unwritten hn =>
    exact h.settle ((h.calls _ _ hn).mutex rfl) hn rfl rfl rfl rfl fun hh => (by cases hh)
  | written hn =>
    exact h.settle ((h.calls _ _ hn).mutex rfl) hn rfl rfl rfl rfl fun _ => (h.calls _ _ hn).mutex rfl
  | published hn =>
    have hold := h.calls _ _ hn
    exact h.move (.inr (hold.mutex rfl)) rfl ⟨fun _ => hold.mutex rfl, fun r hr => (by cases hr),
      fun hnone => (by cases hnone), hold.answered⟩
  | returned hn =>
    have hold := h.calls _ _ hn
    exact h.move (.inr (hold.mutex rfl)) rfl ⟨fun hh => (by cases hh), fun r hr => (by cases hr),
      fun hnone => (by cases hnone), hold.answered⟩
  | @expired k =>
    refine ⟨fun m st hm => ?_, h.entered, h.once⟩
    have hold := h.calls m st hm
    refine ⟨hold.mutex, fun r hr => ?_, hold.fresh, hold.answered⟩
    -- what expired is no obstacle to a write
    show guardStore ((s.base.stored.delete k).get? (pairOf r)) r = .ok ()
    rw [GoMap.get?_delete]
    split
    · exact guardStore_none
    · exact hold.checked r hr
  | waited =>
    refine ⟨fun m st hm => ?_, h.entered, h.once⟩
    have hold := h.calls m st hm
    exact ⟨hold.mutex, hold.checked, hold.fresh, hold.answered⟩

end Calls

/-! ## The stored response -/

theorem succeeded_snoc (key : Queue.Pair) (log : List Entry) (e : Entry) :
    succeeded key (log ++ [e]) =
      if pairOf e.response = key ∧ e.kept = true then succeeded key log ++ [e.response] else succeeded key log := by
  unfold succeeded
  rw [List.filter_append, List.map_append]
  by_cases h : pairOf e.response = key ∧ e.kept = true
  · simp [h]
  · simp [h]

/-- What an entry says, after the entries before it: what was stored is the
reference of the responses before it, and becomes that of the responses with
it; the call returned nil exactly if it put its own response there, and an
override error exactly if the guard refused it; and a call that failed
changed nothing. -/
structure Judged (key : Queue.Pair) (log : List Entry) (e : Entry) : Prop where
  before : e.before = reference (succeeded key log)
  after : e.after = reference (succeeded key (log ++ [e]))
  nil_iff : e.res = .ok () ↔ e.before ≠ some e.response ∧ e.after = some e.response
  final_iff : e.res = .error .overrideFinal ↔ e.readOk = true ∧ RefusedFinal e.before
  transient_iff : e.res = .error .overrideTransient ↔ e.readOk = true ∧ RefusedTransient e.before e.response
  unchanged : e.res ≠ .ok () → e.after = e.before

/-- An entry by itself: a call whose storage commands succeeded returns what
the guard says, one that failed to write had passed it, and only a call that
returns nil changes what is stored. -/
structure Entry.Sound (e : Entry) : Prop where
  guarded : e.kept = true → e.readOk = true ∧ e.res = guardStore e.before e.response
  passed : e.kept = false → e.readOk = true → guardStore e.before e.response = .ok ()
  after : e.after = if e.res = .ok () then some e.response else e.before

section Judge

variable {id key : Queue.Pair} {s s' : Logged} {n : Nat} {r : ActionResponse} {ok : Bool} {log : List Entry} {e : Entry}

theorem Entry.kept_of_ok (h : e.res = .ok ()) : e.kept = true := by simp [Entry.kept, h]

/-- An error of the guard is returned exactly if the guard was asked and gave
it. -/
theorem Entry.Sound.override_iff {err : StoreErr} {Refused : Prop} (h : e.Sound)
    (hkept : e.res = .error err → e.kept = true)
    (hrefused : guardStore e.before e.response = .error err ↔ Refused) :
    e.res = .error err ↔ e.readOk = true ∧ Refused := by
  rw [← hrefused]
  constructor
  · intro hres
    obtain ⟨hread, hguard⟩ := h.guarded (hkept hres)
    exact ⟨hread, hguard.symm.trans hres⟩
  · rintro ⟨hread, hguard⟩
    cases hk : e.kept with
    | true => exact (h.guarded hk).2.trans hguard
    | false =>
      rw [h.passed hk hread] at hguard
      cases hguard

theorem Entry.Sound.reference_snoc (h : e.Sound) (hkey : pairOf e.response = key)
    (hbefore : e.before = reference (succeeded key log)) : e.after = reference (succeeded key (log ++ [e])) := by
  rw [h.after, succeeded_snoc]
  by_cases hk : e.kept = true
  · rw [if_pos (show pairOf e.response = key ∧ e.kept = true from ⟨hkey, hk⟩), Result.reference_snoc, ← hbefore,
      ← (h.guarded hk).2]
  · have hne : e.res ≠ .ok () := fun hok => hk (Entry.kept_of_ok hok)
    rw [if_neg hne, if_neg fun hc => hk hc.2, hbefore]

theorem Entry.Sound.judged (h : e.Sound) (hkey : pairOf e.response = key)
    (hbefore : e.before = reference (succeeded key log)) : Judged key log e := by
  have hafter := h.after
  refine ⟨hbefore, h.reference_snoc hkey hbefore, ⟨fun hok => ?_, fun hchanged => ?_⟩,
    h.override_iff (fun hres => by simp [Entry.kept, hres]) guardStore_final_iff,
    h.override_iff (fun hres => by simp [Entry.kept, hres]) guardStore_transient_iff, fun hne => ?_⟩
  · rw [if_pos hok] at hafter
    exact ⟨ne_self_of_guardStore ((h.guarded (kept_of_ok hok)).2 ▸ hok), hafter⟩
  · by_contra hne
    rw [if_neg hne] at hafter
    exact hchanged.1 (hafter.symm.trans hchanged.2)
  · rw [hafter, if_neg hne]

/-- A call that returned from its read: refused, or the read failed. -/
theorem sound_refused {stored : GoMap Queue.Pair ActionResponse} {err : StoreErr}
    (herr : storeResponse ((getResponse stored ok (pairOf r)).map some) (.ok ()) r = .error err) :
    Entry.Sound ⟨n, r, ok, .error err, stored.get? (pairOf r), stored.get? (pairOf r)⟩ := by
  rcases storeResponse_read stored ok r with ⟨rfl, hread⟩ | ⟨rfl, e, hread⟩
  · rw [hread] at herr
    refine ⟨fun _ => ⟨rfl, herr.symm⟩, fun hk => ?_, rfl⟩
    rcases guardStore_cases (stored.get? (pairOf r)) r with ⟨h, -⟩ | ⟨h, -⟩ | ⟨h, -⟩ <;> rw [herr] at h <;> cases h <;>
      cases hk
  · rw [hread] at herr
    cases herr
    exact ⟨fun hk => (by cases hk), fun _ hr => (by cases hr), rfl⟩

/-- The stored response is the reference, and the entries say what happened. -/
structure StoreOK (key : Queue.Pair) (s : Logged) : Prop where
  calls : CallsOK s
  stored : s.base.stored.get? key = reference (succeeded key s.log)
  judged : ∀ pre e post, s.log = pre ++ e :: post → pairOf e.response = key → Judged key pre e

/-- One more entry, of a call for the key or for another one. -/
theorem StoreOK.settle {base : Wait.State} (h : StoreOK key s) (hcalls : CallsOK ⟨base, s.log ++ [e]⟩) (he : e.Sound)
    (hbefore : e.before = s.base.stored.get? (pairOf e.response))
    (hafter : base.stored.get? (pairOf e.response) = e.after)
    (hother : ∀ k, k ≠ pairOf e.response → base.stored.get? k = s.base.stored.get? k) :
    StoreOK key ⟨base, s.log ++ [e]⟩ := by
  refine ⟨hcalls, ?_, fun pre e' post hlog hkey => ?_⟩
  · show base.stored.get? key = reference (succeeded key (s.log ++ [e]))
    by_cases hkey : pairOf e.response = key
    · rw [← he.reference_snoc hkey (hbefore.trans (hkey ▸ h.stored)), ← hafter, hkey]
    · rw [succeeded_snoc, if_neg fun hc => hkey hc.1, hother key (Ne.symm hkey), h.stored]
  · rcases List.eq_nil_or_concat post with rfl | ⟨post', x, rfl⟩
    · obtain ⟨hpre, hlast⟩ := List.append_inj' (show s.log ++ [e] = pre ++ [e'] from hlog) rfl
      cases hlast
      subst hpre
      exact he.judged hkey (hbefore.trans (hkey ▸ h.stored))
    · rw [List.concat_eq_append, ← List.cons_append, ← List.append_assoc] at hlog
      exact h.judged pre e' post' (List.append_inj' hlog rfl).1 hkey

theorem StoreOK.step {ev : Wait.Event} (h : StoreOK key s) (hexp : NoExpiry key s ev) (hs : Step id s ev s') :
    StoreOK key s' := by
  have hcalls := h.calls.step hs
  cases hs with
  | called | locked | checked | published | returned | waited => exact ⟨hcalls, h.stored, h.judged⟩
  | refused hn herr => exact h.settle hcalls (sound_refused herr) rfl rfl fun _ _ => rfl
  | unwritten hn =>
    have hpassed := (h.calls.calls _ _ hn).checked _ rfl
    exact h.settle hcalls ⟨fun hk => (by cases hk), fun _ _ => hpassed, rfl⟩ rfl rfl fun _ _ => rfl
  | @written n ok r hn =>
    have hpassed := (h.calls.calls _ _ hn).checked _ rfl
    exact h.settle hcalls ⟨fun _ => ⟨rfl, hpassed.symm⟩, fun hk => (by cases hk), rfl⟩ rfl (GoMap.get?_set_self _ _ _)
      fun k hk => GoMap.get?_set_ne _ hk _
  | @expired k =>
    refine ⟨hcalls, ?_, h.judged⟩
    show (s.base.stored.delete k).get? key = _
    rw [GoMap.get?_delete, if_neg fun heq => hexp (by rw [heq]), h.stored]

theorem storeOK_of_reach (h : Lts.Reach (system id key) (NoExpiry key) s) : StoreOK key s := by
  refine h.invariant (StoreOK key) ?_ fun s e s' _ ih hexp hs => ih.step hexp (step_inv hs)
  rintro ⟨base, log⟩ ⟨⟨stored, hbase⟩, hnone, hlog⟩
  cases hbase
  cases hlog
  refine ⟨⟨fun n st hn => ?_, fun e he => (by cases he), List.nodup_nil⟩, hnone, fun pre e post hlog => ?_⟩
  · cases hn
  · exact absurd hlog (by simp)

/-- **The override guard is a reference fold.** With calls in any order of the
mutex, failing storage commands and no expiry, what is stored under a key is
the first final response of the calls whose commands succeeded, or else the
first of the greatest status. Each call that returned has one entry in the
log, with what it returned, and every entry says so: nil for a change to its
own response, an override error for a refusal by the guard, and no change
where it failed. -/
theorem override_guard_fold (h : Lts.Reach (system id key) (NoExpiry key) s) :
    s.base.stored.get? key = reference (succeeded key s.log) ∧
      (s.log.map Entry.call).Nodup ∧
      (∀ n r err, s.base.storers[n]? = some (.returned r err) →
        ∃ e ∈ s.log, e.call = n ∧ e.response = r ∧ e.res = err) ∧
      ∀ pre e post, s.log = pre ++ e :: post → pairOf e.response = key → Judged key pre e := by
  have hok := storeOK_of_reach h
  refine ⟨hok.stored, hok.calls.once, fun n r err hn => ?_, hok.judged⟩
  obtain ⟨e, he, hcall, heq⟩ := (hok.calls.calls n _ hn).answered _ rfl
  cases heq
  exact ⟨e, he, hcall, rfl, rfl⟩

end Judge

/-- A response for one key, with a status. -/
def withStatus (status : UInt8) : ActionResponse := ⟨⟨1, .threshold, status, 0, 0, []⟩, []⟩

/-- Three calls with the statuses 2, 1 and 3 get the mutex in the order 2, 3, 1,
and the first write for status 3 fails. -/
theorem override_guard_fold_statuses :
    ∃ s, Lts.Reach (system (1, .threshold) (1, .threshold)) (NoExpiry (1, .threshold)) s ∧
      succeeded (1, .threshold) s.log = [withStatus 2, withStatus 1] ∧
      s.base.stored.get? (1, .threshold) = some (withStatus 1) := by
  have hrun : ((system (1, .threshold) (1, .threshold)).run ⟨⟨∅, none, [], .fetching, 0⟩, []⟩
      ([.storeResponse (withStatus 2), .storeResponse (withStatus 1), .storeResponse (withStatus 3)] ++
        Wait.storing 0 ++ [.store 2 true, .store 2 true, .store 2 false] ++ Wait.storing 1)).any (fun s =>
          succeeded (1, .threshold) s.log = [withStatus 2, withStatus 1] ∧ s.log.length = 3) := by
    decide +kernel
  obtain ⟨s, hs, hend⟩ := (Option.any_eq_true _ _).mp hrun
  obtain ⟨hlog, -⟩ := of_decide_eq_true hend
  have hreach : Lts.Reach (system (1, .threshold) (1, .threshold)) (NoExpiry (1, .threshold)) s := by
    refine .of_run (.init ⟨⟨∅, rfl⟩, rfl, rfl⟩) (fun e he _ => ?_) hs
    rintro rfl
    revert he
    decide
  refine ⟨s, hreach, hlog, ?_⟩
  rw [(override_guard_fold hreach).1, hlog]
  decide

end Override

end TeeProxy.Result
