/-
From the voting storage to the node (`Service.Forward`).

The actions the storage puts on its channel are enqueued on the main queue
in order, one at a time, and the node's polls take them off: a take of the
ID, a fetch of the body, a commit. Nothing fails on the way. An action
arrives as it was emitted if none is stored while an earlier one with its ID
and submission tag is still on its way; the voting storage does not see to
that, since every box of an instruction ID that finalizes emits an action
with that ID and the same tag.
-/
import TeeProxy.Queue.Conservation
import TeeProxy.Voting.Emission

namespace TeeProxy.Forward

open Queue (Json SharesPair live)
open Voting (CyclicPkg)

/-- The voting storage, how many of its actions `Forward` has received, and
the main queue. -/
structure State (cyc : CyclicPkg) where
  voting : Voting.State cyc
  forwarded : Nat
  queue : Queue.State

/-- A step of the storage, the receipt of a sent action, or a step of the main
queue. -/
inductive Event
  | voting (e : Voting.Event)
  | receive
  | push
  | dequeue
  | fetch (n : Nat)
  | commit (n : Nat)

section System

variable (dep : Voting.Deps) (cyc : CyclicPkg) (cfg : Voting.Config) (j : Json)

/-- `Forward` receives the next action only when its last `Enqueue` has
returned. -/
def step (s : State cyc) : Event → Option (State cyc)
  | .voting e => (Voting.step dep cyc cfg s.voting e).map fun voting => { s with voting }
  | .receive => match s.voting.out[s.forwarded]? with
    | none => none
    | some emission =>
      if s.queue.pushing.isEmpty then
        (Queue.step j .main s.queue (.enqueue emission.action true)).map fun queue =>
          { s with forwarded := s.forwarded + 1, queue }
      else none
  | .push => (Queue.step j .main s.queue (.push 0 true)).map fun queue => { s with queue }
  | .dequeue => (Queue.step j .main s.queue (.dequeue false true)).map fun queue => { s with queue }
  | .fetch n => (Queue.step j .main s.queue (.fetch n true)).map fun queue => { s with queue }
  | .commit n => (Queue.step j .main s.queue (.commit n true)).map fun queue => { s with queue }

/-- Nothing is voted on and nothing queued. -/
def start : State cyc := ⟨Voting.start cyc cfg, 0, Queue.start⟩

/-- The voting storage, `Forward` and the main queue. -/
def system : Lts.System (State cyc) Event where
  init s := s = start cyc cfg
  step := step dep cyc cfg j

end System

section Runs

variable {dep : Voting.Deps} {cyc : CyclicPkg} {cfg : Voting.Config} {j : Json}

/-- The action received has another pair than every action on its way. -/
def FreshPairs (j : Json) (s : State cyc) : Event → Prop
  | .receive => ∀ emission ∈ s.voting.out[s.forwarded]?, ¬ SharesPair emission.action (live j .main s.queue)
  | _ => True

instance (j : Json) (s : State cyc) (e : Event) : Decidable (FreshPairs j s e) := by
  cases e <;> unfold FreshPairs <;> infer_instance

theorem queue_reach {s : State cyc} (h : Lts.Reach (system dep cyc cfg j) (FreshPairs j) s) :
    Lts.Reach (Queue.system j .main) (Queue.Smooth j .main) s.queue := by
  refine h.simulation State.queue ?_ ?_
  · rintro s rfl; rfl
  · intro s e s' _ _ he hs
    cases e with
    | voting e =>
      obtain ⟨voting, -, rfl⟩ := Option.map_eq_some_iff.mp hs
      exact .inl rfl
    | receive =>
      simp only [system, step] at hs
      split at hs
      · cases hs
      next emission hout =>
      split at hs
      next =>
        obtain ⟨queue, hq, rfl⟩ := Option.map_eq_some_iff.mp hs
        exact .inr ⟨.enqueue emission.action true, ⟨he emission hout, fun n hn => by cases hn⟩, hq⟩
      next => cases hs
    | push =>
      obtain ⟨queue, hq, rfl⟩ := Option.map_eq_some_iff.mp hs
      exact .inr ⟨.push 0 true, ⟨trivial, fun n hn => by cases hn⟩, hq⟩
    | dequeue =>
      obtain ⟨queue, hq, rfl⟩ := Option.map_eq_some_iff.mp hs
      exact .inr ⟨.dequeue false true, ⟨trivial, fun n hn => by cases hn⟩, hq⟩
    | fetch n =>
      obtain ⟨queue, hq, rfl⟩ := Option.map_eq_some_iff.mp hs
      exact .inr ⟨.fetch n true, ⟨trivial, fun n hn => by cases hn⟩, hq⟩
    | commit n =>
      obtain ⟨queue, hq, rfl⟩ := Option.map_eq_some_iff.mp hs
      exact .inr ⟨.commit n true, ⟨trivial, fun n hn => by cases hn⟩, hq⟩

/-- **Every emitted action arrives as it was emitted**, in every state of
every run in which no action is stored while one with its pair is on its
way: no `Dequeue` fails to find its body, and each delivery holds the action
its ID was pushed for. -/
theorem emitted_action_delivered {s : State cyc} (h : Lts.Reach (system dep cyc cfg j) (FreshPairs j) s) :
    s.queue.unfetched = [] ∧ ∀ x ∈ s.queue.handed, x.1.action = x.2 :=
  Queue.delivered (queue_reach h)

end Runs

/-! ## Two boxes of one instruction ID -/

/-- The action of the box of the instruction stamped `t`, of ID 1. -/
def boxAction (t : UInt8) : Action :=
  ⟨⟨1, .instruction, .threshold, [t]⟩, [[1], [2]], [[], []], [100, 100], []⟩

/-- Forms for two actions of boxes. -/
def boxJson : Json := .ofTable [boxAction 5, boxAction 6]

/-- Both boxes finalize and emit. -/
def bothEmit : List Event := Voting.twoBoxes.map .voting ++ [.voting (.send 1), .voting (.send 3)]

/-- Each action is delivered and committed before the next is received. -/
def inTurn : List Event :=
  bothEmit ++ [.receive, .push, .dequeue, .fetch 0, .commit 0, .receive, .push, .dequeue, .fetch 0, .commit 0]

theorem emitted_action_delivered_inTurn :
    ∃ s, Lts.Reach (system Voting.plainDeps .slots Voting.plainConfig boxJson) (FreshPairs boxJson) s ∧
      s.queue.handed.map Prod.snd = [boxAction 5, boxAction 6] ∧ ∀ x ∈ s.queue.handed, x.1.action = x.2 := by
  have hrun : ((system Voting.plainDeps .slots Voting.plainConfig boxJson).runIf (FreshPairs boxJson)
      (start .slots Voting.plainConfig) inTurn).any
        (fun s => s.queue.handed.map Prod.snd = [boxAction 5, boxAction 6]) := by decide +kernel
  obtain ⟨s, hs, hend⟩ := (Option.any_eq_true _ _).mp hrun
  have hreach := Lts.Reach.of_runIf (.init rfl) hs
  exact ⟨s, hreach, of_decide_eq_true hend, (emitted_action_delivered hreach).2⟩

/-- Both actions are received before the first is taken. -/
def together : List Event :=
  bothEmit ++ [.receive, .push, .receive, .push, .dequeue, .fetch 0, .commit 0, .dequeue, .fetch 0]

/-- The second action's body replaces the first's, and the commit of the
first delivery removes it: the first `Dequeue` hands out the second action,
and the second finds no body. -/
theorem emitted_action_replaced :
    ∃ s, Lts.Reach (system Voting.plainDeps .slots Voting.plainConfig boxJson) Lts.Free s ∧
      s.voting.out.map Voting.Emission.action = [boxAction 5, boxAction 6] ∧
      s.queue.handed.map (fun x => (x.2, x.1.action)) = [(boxAction 5, boxAction 6)] ∧
      s.queue.unfetched.map Prod.snd = [boxAction 6] := by
  have hrun : ((system Voting.plainDeps .slots Voting.plainConfig boxJson).run
      (start .slots Voting.plainConfig) together).any (fun s =>
        s.voting.out.map Voting.Emission.action = [boxAction 5, boxAction 6] ∧
        s.queue.handed.map (fun x => (x.2, x.1.action)) = [(boxAction 5, boxAction 6)] ∧
        s.queue.unfetched.map Prod.snd = [boxAction 6]) := by decide +kernel
  obtain ⟨s, hs, hend⟩ := (Option.any_eq_true _ _).mp hrun
  exact ⟨s, .of_run (.init rfl) (fun _ _ _ => trivial) hs, of_decide_eq_true hend⟩

end TeeProxy.Forward
