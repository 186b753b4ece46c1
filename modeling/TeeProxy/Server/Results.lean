/-
Results on their way in (`resultH`, `storeResult` and `Close` of
`internal/server/internal.go`).

A call of `resultH` decodes the body, and under `mu` looks at `draining` and
hands the response to a detached task of the wait group `resultWrites`; once
`Close` has set `draining`, it stores the response itself before it returns.
`Close` sets the flag under `mu`, lets the HTTP server shut down, which
returns when no handler is running, and waits for the group.

Every lock, unlock and access is a step of its own, so that a handler can be
at any point when the flag flips.
-/
import TeeProxy.Lib.Lts
import TeeProxy.Types

namespace TeeProxy.Server

/-- Who holds `mu`. -/
inductive Holder
  | handler (n : Nat)
  | closer
  deriving DecidableEq, Repr

/-- Where a call of `resultH` is. A body that does not decode is refused, and
so is a JSON `null`, which decodes to a nil response whose first read panics. -/
inductive Handler
  | refused
  | decoded (r : ActionResponse)
  | locked (r : ActionResponse)
  | read (r : ActionResponse) (draining : Bool)
  | spawned (r : ActionResponse)
  | storing (r : ActionResponse)
  | acking (r : ActionResponse)
  /-- `resultH` has returned nil. -/
  | returned (r : ActionResponse)
  deriving DecidableEq, Repr

/-- The call has returned. -/
def Handler.over : Handler → Bool
  | .refused | .returned _ => true
  | _ => false

/-- The call holds `mu`. -/
def Handler.holds : Handler → Bool
  | .locked _ | .read _ _ | .spawned _ => true
  | _ => false

/-- Where `Close` is. -/
inductive Closing
  | idle
  | locked
  | flagged
  | shutdown
  | waiting
  | waited
  | returned
  deriving DecidableEq, Repr

/-- `Close` has set the flag. -/
def Closing.flag : Closing → Bool
  | .idle | .locked => false
  | _ => true

/-- `Wait` has started. -/
def Closing.waits : Closing → Bool
  | .waiting | .waited | .returned => true
  | _ => false

/-- The calls, by number; the tasks of `resultWrites` that are running, each
for the call that started it. Of the past: the calls whose `storeResult` has
completed, and the number of tasks ever added. -/
structure State where
  handlers : List Handler
  tasks : List Nat
  mu : Option Holder
  draining : Bool
  closing : Closing
  completed : List Nat
  added : Nat
  deriving DecidableEq

/-- A request arrives; a call, a task or `Close` takes its next step. -/
inductive Event
  | start (body : Except PkgErr ActionResponse)
  | resultH (n : Nat)
  | task (n : Nat)
  | close
  deriving DecidableEq

/-- A step of a handler, a task or `Close`. -/
def step (s : State) : Event → Option State
  | .start (.error _) => some { s with handlers := s.handlers ++ [.refused] }
  | .start (.ok r) => some { s with handlers := s.handlers ++ [.decoded r] }
  | .resultH n => match s.handlers[n]? with
    | some (.decoded r) =>
      if s.mu = none then some { s with handlers := s.handlers.set n (.locked r), mu := some (.handler n) } else none
    | some (.locked r) => some { s with handlers := s.handlers.set n (.read r s.draining) }
    | some (.read r false) =>
      some { s with handlers := s.handlers.set n (.spawned r), tasks := s.tasks ++ [n], added := s.added + 1 }
    | some (.read r true) => some { s with handlers := s.handlers.set n (.storing r), mu := none }
    | some (.spawned r) => some { s with handlers := s.handlers.set n (.acking r), mu := none }
    | some (.storing r) =>
      some { s with handlers := s.handlers.set n (.acking r), completed := s.completed ++ [n] }
    | some (.acking r) => some { s with handlers := s.handlers.set n (.returned r) }
    | _ => none
  | .task n =>
    if n ∈ s.tasks then some { s with tasks := s.tasks.erase n, completed := s.completed ++ [n] } else none
  | .close => match s.closing with
    | .idle => if s.mu = none then some { s with closing := .locked, mu := some .closer } else none
    | .locked => some { s with closing := .flagged, draining := true }
    | .flagged => some { s with closing := .shutdown, mu := none }
    -- `Shutdown` returns once no handler is running
    | .shutdown => if s.handlers.all (·.over) then some { s with closing := .waiting } else none
    | .waiting => if s.tasks = [] then some { s with closing := .waited } else none
    | .waited => some { s with closing := .returned }
    | .returned => none

/-- The server before its first request. -/
def start : State := ⟨[], [], none, false, .idle, [], 0⟩

/-- The handlers, the detached tasks and `Close`. -/
def system : Lts.System State Event where
  init s := s = start
  step := step

/-! ## What a step can do -/

/-- **Everything a step can do.** -/
inductive Step (s : State) : Event → State → Prop
  | refused {e} : Step s (.start (.error e)) { s with handlers := s.handlers ++ [.refused] }
  | started {r} : Step s (.start (.ok r)) { s with handlers := s.handlers ++ [.decoded r] }
  | locked {n r} : s.handlers[n]? = some (.decoded r) → s.mu = none →
      Step s (.resultH n) { s with handlers := s.handlers.set n (.locked r), mu := some (.handler n) }
  | read {n r} : s.handlers[n]? = some (.locked r) →
      Step s (.resultH n) { s with handlers := s.handlers.set n (.read r s.draining) }
  | spawned {n r} : s.handlers[n]? = some (.read r false) →
      Step s (.resultH n) { s with
        handlers := s.handlers.set n (.spawned r), tasks := s.tasks ++ [n], added := s.added + 1 }
  | unlocked {n r h} : s.handlers[n]? = some (.read r true) ∧ h = .storing r ∨
        s.handlers[n]? = some (.spawned r) ∧ h = .acking r →
      Step s (.resultH n) { s with handlers := s.handlers.set n h, mu := none }
  | stored {n r} : s.handlers[n]? = some (.storing r) →
      Step s (.resultH n) { s with handlers := s.handlers.set n (.acking r), completed := s.completed ++ [n] }
  | returned {n r} : s.handlers[n]? = some (.acking r) →
      Step s (.resultH n) { s with handlers := s.handlers.set n (.returned r) }
  | task {n} : n ∈ s.tasks →
      Step s (.task n) { s with tasks := s.tasks.erase n, completed := s.completed ++ [n] }
  | closeLocked : s.closing = .idle → s.mu = none →
      Step s .close { s with closing := .locked, mu := some .closer }
  | flagged : s.closing = .locked → Step s .close { s with closing := .flagged, draining := true }
  | closeUnlocked : s.closing = .flagged → Step s .close { s with closing := .shutdown, mu := none }
  | shutDown : s.closing = .shutdown → (∀ h ∈ s.handlers, h.over = true) → Step s .close { s with closing := .waiting }
  | waited : s.closing = .waiting → s.tasks = [] → Step s .close { s with closing := .waited }
  | closed : s.closing = .waited → Step s .close { s with closing := .returned }

theorem step_inv {s s' : State} {e : Event} (h : step s e = some s') : Step s e s' := by
  cases e with
  | start body =>
    cases body with
    | error e => cases h; exact .refused
    | ok r => cases h; exact .started
  | resultH n =>
    simp only [step] at h
    split at h
    next hn =>
      split at h
      next hmu => cases h; exact .locked hn hmu
      next => cases h
    next hn => cases h; exact .read hn
    next hn => cases h; exact .spawned hn
    next hn => cases h; exact .unlocked (.inl ⟨hn, rfl⟩)
    next hn => cases h; exact .unlocked (.inr ⟨hn, rfl⟩)
    next hn => cases h; exact .stored hn
    next hn => cases h; exact .returned hn
    next => cases h
  | task n =>
    simp only [step] at h
    split at h
    next hn => cases h; exact .task hn
    next => cases h
  | close =>
    simp only [step] at h
    split at h
    next hc =>
      split at h
      next hmu => cases h; exact .closeLocked hc hmu
      next => cases h
    next hc => cases h; exact .flagged hc
    next hc => cases h; exact .closeUnlocked hc
    next hc =>
      split at h
      next hall => cases h; exact .shutDown hc (List.all_eq_true.mp hall)
      next => cases h
    next hc =>
      split at h
      next ht => cases h; exact .waited hc ht
      next => cases h
    next hc => cases h; exact .closed hc
    next => cases h

/-! ## The invariant -/

/-- The response of the call is stored, or a task is going to. -/
def Kept (s : State) (n : Nat) : Prop := n ∈ s.completed ∨ n ∈ s.tasks

/-- A call inside its critical section holds `mu` and has read the flag as it
is; one that is past it has left its response to a task or stored it. -/
def HandlerOK (s : State) (n : Nat) : Handler → Prop
  | .refused | .decoded _ | .storing _ => True
  | .locked _ => s.mu = some (.handler n)
  | .read _ draining => s.mu = some (.handler n) ∧ draining = s.draining
  | .spawned _ => s.mu = some (.handler n) ∧ Kept s n
  | .acking _ | .returned _ => Kept s n

/-- The handlers are in order; `Close` sets the flag under the lock, and has
waited for the tasks when it goes on. -/
structure ServerOK (s : State) : Prop where
  handlers : ∀ n h, s.handlers[n]? = some h → HandlerOK s n h
  closer : s.closing = .locked ∨ s.closing = .flagged → s.mu = some .closer
  draining : s.draining = s.closing.flag
  drained : s.closing = .waited ∨ s.closing = .returned → s.tasks = []

variable {s s' : State} {n : Nat} {h h' : Handler}

/-- What a call relies on is kept by a step that loses no response, and that
leaves `mu` and the flag alone if the call holds `mu`. -/
theorem HandlerOK.keep (hok : HandlerOK s n h) (hkept : Kept s n → Kept s' n)
    (hsame : s.mu = some (.handler n) → s'.mu = s.mu ∧ s'.draining = s.draining) : HandlerOK s' n h := by
  cases h with
  | refused | decoded | storing => trivial
  | locked => exact (hsame hok).1.trans hok
  | read => exact ⟨(hsame hok.1).1.trans hok.1, hok.2.trans (hsame hok.1).2.symm⟩
  | spawned => exact ⟨(hsame hok.1).1.trans hok.1, hkept hok.2⟩
  | acking | returned => exact hkept hok

theorem ServerOK.step (hok : ServerOK s) {e : Event} (hs : Step s e s') : ServerOK s' := by
  cases hs with
  | refused => exact ⟨Lts.forall_snoc trivial hok.handlers, hok.closer, hok.draining, hok.drained⟩
  | started => exact ⟨Lts.forall_snoc trivial hok.handlers, hok.closer, hok.draining, hok.drained⟩
  | @locked n r hn hmu =>
    refine ⟨Lts.forall_set rfl fun m h hne hm => ?_, fun hc => ?_, hok.draining, hok.drained⟩
    · exact (hok.handlers m h hm).keep id fun hheld => by rw [hmu] at hheld; cases hheld
    · rw [hok.closer hc] at hmu; cases hmu
  | @read n r hn =>
    refine ⟨Lts.forall_set ⟨hok.handlers n _ hn, rfl⟩ fun m h _ hm => ?_, hok.closer, hok.draining, hok.drained⟩
    exact (hok.handlers m h hm).keep id fun _ => ⟨rfl, rfl⟩
  | @spawned n r hn =>
    obtain ⟨hmu, hflag⟩ := hok.handlers n _ hn
    refine ⟨Lts.forall_set ⟨hmu, .inr (List.mem_append_right _ (List.mem_singleton_self n))⟩ fun m h _ hm => ?_,
      hok.closer, hok.draining, fun hc => ?_⟩
    · exact (hok.handlers m h hm).keep (fun hk => hk.imp id (List.mem_append_left _)) fun _ => ⟨rfl, rfl⟩
    · -- the flag was not set when the call read it
      rw [hok.draining] at hflag
      rcases hc with hc | hc <;> rw [show s.closing = _ from hc] at hflag <;> cases hflag
  | @unlocked n r h hn =>
    have hself : s.mu = some (.handler n) ∧ HandlerOK { s with handlers := s.handlers.set n h, mu := none } n h := by
      rcases hn with ⟨hn, rfl⟩ | ⟨hn, rfl⟩
      · exact ⟨(hok.handlers n _ hn).1, trivial⟩
      · exact hok.handlers n _ hn
    refine ⟨Lts.forall_set hself.2 fun m h hne hm => ?_, fun hc => ?_, hok.draining, hok.drained⟩
    · refine (hok.handlers m h hm).keep id fun hheld => ?_
      rw [hself.1, Option.some.injEq, Holder.handler.injEq] at hheld
      exact absurd hheld.symm hne
    · have := hok.closer hc
      rw [hself.1] at this
      cases this
  | @stored n r hn =>
    refine ⟨Lts.forall_set (.inl (List.mem_append_right _ (List.mem_singleton_self n))) fun m h _ hm => ?_,
      hok.closer, hok.draining, hok.drained⟩
    exact (hok.handlers m h hm).keep (fun hk => hk.imp (List.mem_append_left _) id) fun _ => ⟨rfl, rfl⟩
  | @returned n r hn =>
    refine ⟨Lts.forall_set (hok.handlers n _ hn) fun m h _ hm => ?_, hok.closer, hok.draining, hok.drained⟩
    exact (hok.handlers m h hm).keep id fun _ => ⟨rfl, rfl⟩
  | @task n hn =>
    refine ⟨fun m h hm => (hok.handlers m h hm).keep (fun hk => ?_) fun _ => ⟨rfl, rfl⟩, hok.closer, hok.draining,
      fun hc => ?_⟩
    · by_cases hmn : m = n
      · exact .inl (List.mem_append_right _ (by rw [hmn]; exact List.mem_singleton_self n))
      · exact hk.imp (List.mem_append_left _) (List.mem_erase_of_ne hmn).mpr
    · rw [hok.drained hc] at hn
      cases hn
  | closeLocked hc hmu =>
    refine ⟨fun m h hm => (hok.handlers m h hm).keep id fun hheld => ?_, fun _ => rfl, ?_, fun hc => ?_⟩
    · rw [hmu] at hheld; cases hheld
    · exact hok.draining.trans (by rw [hc]; rfl)
    · rcases hc with hc | hc <;> cases hc
  | flagged hc =>
    have hmu := hok.closer (.inl hc)
    refine ⟨fun m h hm => (hok.handlers m h hm).keep id fun hheld => ?_, fun _ => hmu, rfl, fun hc => ?_⟩
    · rw [hmu] at hheld; cases hheld
    · rcases hc with hc | hc <;> cases hc
  | closeUnlocked hc =>
    have hmu := hok.closer (.inr hc)
    refine ⟨fun m h hm => (hok.handlers m h hm).keep id fun hheld => ?_, fun hc => ?_, ?_, fun hc => ?_⟩
    · rw [hmu] at hheld; cases hheld
    · rcases hc with hc | hc <;> cases hc
    · exact hok.draining.trans (by rw [hc]; rfl)
    · rcases hc with hc | hc <;> cases hc
  | shutDown hc =>
    refine ⟨fun m h hm => (hok.handlers m h hm).keep id fun _ => ⟨rfl, rfl⟩, fun hc => ?_,
      hok.draining.trans (by rw [hc]; rfl), fun hc => ?_⟩
    · rcases hc with hc | hc <;> cases hc
    · rcases hc with hc | hc <;> cases hc
  | waited hc ht =>
    refine ⟨fun m h hm => (hok.handlers m h hm).keep id fun _ => ⟨rfl, rfl⟩, fun hc => ?_,
      hok.draining.trans (by rw [hc]; rfl), fun _ => ht⟩
    rcases hc with hc | hc <;> cases hc
  | closed hc =>
    refine ⟨fun m h hm => (hok.handlers m h hm).keep id fun _ => ⟨rfl, rfl⟩, fun hc => ?_,
      hok.draining.trans (by rw [hc]; rfl), fun _ => hok.drained (.inl hc)⟩
    rcases hc with hc | hc <;> cases hc

theorem serverOK_of_reach (hr : Lts.Reach system Lts.Free s) : ServerOK s := by
  refine hr.invariant ServerOK (fun s hs => ?_) fun s e s' _ ih _ hs => ih.step (step_inv hs)
  subst hs
  exact ⟨fun n h hn => (by cases hn), fun hc => (by rcases hc with hc | hc <;> cases hc), rfl, fun _ => rfl⟩

/-! ## After `Close` -/

theorem Step.added {e : Event} (hs : Step s e s') (hok : ServerOK s) :
    s'.added = s.added ∨ s.closing.flag = false := by
  cases hs with
  | @spawned n r hn =>
    right
    rw [← hok.draining]
    exact (hok.handlers n _ hn).2.symm
  | _ => exact .inl rfl

theorem Step.waits {e : Event} (hs : Step s e s') (hw : s.closing.waits = true) : s'.closing.waits = true := by
  cases hs with
  | closeLocked hc | flagged hc | closeUnlocked hc | shutDown hc => rw [hc] at hw; cases hw
  | waited | closed => rfl
  | _ => exact hw

theorem Closing.flag_of_waits {c : Closing} (h : c.waits = true) : c.flag = true := by
  cases c <;> first | rfl | cases h

/-- **No result is outstanding after `Close`.** Whatever handlers were running
and wherever they were: once `Close` has returned, `storeResult` has completed
for every response whose call returned nil, and from the moment `Wait` starts
no task is added to the group. -/
theorem closed_complete (hr : Lts.Reach system Lts.Free s) :
    (s.closing = .returned → ∀ n r, s.handlers[n]? = some (.returned r) → n ∈ s.completed) ∧
      (s.closing.waits = true → ∀ s', Lts.Later system Lts.Free s s' → s'.added = s.added) := by
  have hok := serverOK_of_reach hr
  refine ⟨fun hc n r hn => ?_, fun hw s' hl => ?_⟩
  · rcases (hok.handlers n _ hn : Kept s n) with hdone | htask
    · exact hdone
    · rw [hok.drained (.inr hc)] at htask
      cases htask
  · have hrel : s.closing.waits = true → s'.closing.waits = true ∧ s'.added = s.added := by
      refine hl.relation (fun s s' => s.closing.waits = true → s'.closing.waits = true ∧ s'.added = s.added)
        (fun _ hw => ⟨hw, rfl⟩) (fun a b c hab hbc ha => ?_) (fun s e s' hreach _ hs hw => ?_) hr
      · obtain ⟨hb, hadd⟩ := hab ha
        exact ⟨(hbc hb).1, (hbc hb).2.trans hadd⟩
      · have hstep := step_inv hs
        refine ⟨hstep.waits hw, (hstep.added (serverOK_of_reach hreach)).resolve_right fun hflag => ?_⟩
        rw [Closing.flag_of_waits hw] at hflag
        cases hflag
    exact (hrel hw).2

/-- A response that is stored by a task, with `Close` in the middle, and one
that arrives when the flag is set. -/
def twoResults : List Event :=
  let r : ActionResponse := ⟨⟨1, .submit, 1, 0, 0, []⟩, []⟩
  [.start (.ok r), .resultH 0, .resultH 0, .resultH 0, .resultH 0, .close, .close, .close, .start (.ok r), .resultH 1,
    .resultH 0, .resultH 1, .resultH 1, .resultH 1, .resultH 1, .close, .task 0, .close, .close]

theorem closed_complete_twoResults :
    ∃ s, Lts.Reach system Lts.Free s ∧ s.closing = .returned ∧ s.added = 1 ∧ 0 ∈ s.completed ∧ 1 ∈ s.completed := by
  have hrun : (system.run start twoResults).any (fun s => s.closing = .returned ∧ s.added = 1 ∧
      s.handlers = [.returned ⟨⟨1, .submit, 1, 0, 0, []⟩, []⟩, .returned ⟨⟨1, .submit, 1, 0, 0, []⟩, []⟩]) := by
    decide +kernel
  obtain ⟨s, hs, hend⟩ := (Option.any_eq_true _ _).mp hrun
  obtain ⟨hclosed, hadded, hhandlers⟩ := of_decide_eq_true hend
  have hreach : Lts.Reach system Lts.Free s := .of_run (.init rfl) (fun _ _ _ => trivial) hs
  have hall := (closed_complete hreach).1 hclosed
  exact ⟨s, hreach, hclosed, hadded, hall 0 _ (by rw [hhandlers]; rfl), hall 1 _ (by rw [hhandlers]; rfl)⟩

end TeeProxy.Server
