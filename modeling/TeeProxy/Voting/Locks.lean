/-
Votes, expirations and status requests of one round at the granularity of
their lock operations (`Storage.AddVote`, `voteBox.scheduleEnd`,
`Service.Statuses`).

`AddVote` takes `round.Voting`, then the lock of the ID's `voteBoxes`, then
that of the box. It releases the first at once when the ID is known, and
keeps it to the end when it is not. What it makes itself, the `voteBoxes` of
a new ID or a new box, no other goroutine can reach before it is in the
maps, so until then their locks are free and are not shown. `scheduleEnd`
takes the `voteBoxes` for reading and the box for writing, `Statuses` takes
all of them for reading. The limiter has a lock of its own, so that
`Increment` and `Decrement` are steps.

Between two lock operations a goroutine runs alone on what its locks
protect; such a stretch is one step.
-/
import TeeProxy.Lib.Lts
import TeeProxy.Lib.RwMutex
import TeeProxy.Voting.Heap

namespace TeeProxy.Voting

open RwMutex (Stance Mode Unclaimed Unheld)

/-- The locks of a round, by what they belong to. -/
inductive Lock
  | voting
  | boxes (ref : Nat)
  | box (b : Nat)
  deriving DecidableEq, Repr

/-- A vote past the checks of `AddVote`, and what it reads from the clock. -/
structure Arg where
  hash : Hash
  call : Call
  clock : Clock

def Arg.id (a : Arg) : Hash := a.call.data.instructionID

namespace Locks

/-! ## The critical sections -/

section Effect

variable (dep : Deps) (policy : SigningPolicy)

/-- What a vote makes of its box and of the finalized hash of the ID, and what
it returns: the part of the closure of `AddVote` under all its locks. -/
def voteEffect (a : Arg) (existsB : Bool) (box : VoteBox) (finalizedHash : Hash) :
    VoteBox × Hash × Except VoteErr Voted :=
  if box.deleted then (box, finalizedHash, .error .votingEnded)
  else match castOn dep policy a.call a.clock box with
    | (box', .error e) => (box', finalizedHash, .error (.addingVote a.call.signer a.id e))
    | (box', .ok (receipt, reached)) =>
      let vg := (voterGroupCheck a.call.signer policy.voters.voterDataMap box.proposal.cosigners).1
      let voted : Voted := ⟨receipt, vg.isProvider, box'.weight, !existsB, reached, false, none⟩
      if reached && !isRestore dep a.call.data.opType a.call.data.opCommand then
        (box', if finalizedHash = 0 then a.hash else finalizedHash,
          .ok (match box'.action dep .threshold with
            | .error _ => { voted with buildErr := true }
            | .ok action => { voted with actionToSend := some action }))
      else (box', finalizedHash, .ok voted)

end Effect

/-- The vote finalized its box, which gives the proposer's slot back. -/
def releases : Except VoteErr Voted → Bool
  | .ok voted => voted.reached
  | .error _ => false

/-! ## Goroutines -/

/-- Where a call of `AddVote` is. A `want` has announced its write or not;
`ref?` is the `voteBoxes` of the ID, none when the ID is new and
`round.Voting` stays locked. -/
inductive VotePc
  | wantVoting (announced : Bool)
  | heldVoting
  | wantBoxes (ref : Nat) (announced : Bool)
  | heldBoxes (ref? : Option Nat)
  /-- the limiter has admitted the proposer of a new box -/
  | reserved (ref? : Option Nat)
  | opened (ref? : Option Nat) (box : VoteBox)
  | wantBox (ref b : Nat) (announced : Bool)
  | heldBox (ref b : Nat)
  | unlockBox (ref b : Nat) (owner : Bool) (res : Except VoteErr Voted)
  | unlockBoxes (ref : Nat) (owner : Bool) (res : Except VoteErr Voted)
  | unlockVoting (res : Except VoteErr Voted)
  | returned (res : Except VoteErr Voted)

/-- Where a call of `scheduleEnd` is. -/
inductive EndPc
  | sleeping
  | cancelled
  | wantBoxes
  | wantBox (announced : Bool)
  | heldBox
  | unlockBox (actions : List Action)
  | unlockBoxes (actions : List Action)
  | returned (actions : List Action)

/-- Where a call of `Statuses` is; `todo` are the boxes it has not read. -/
inductive StatusPc
  | wantVoting
  | heldVoting
  | wantBoxes (ref : Nat)
  | reading (ref : Nat) (todo : List Nat)
  | wantBox (ref b : Nat) (todo : List Nat)
  | readingBox (ref b : Nat) (todo : List Nat)
  | returned

/-- A goroutine. A vote that the limiter refused remembers the calls of the
same signer that had a slot for a box they had not opened yet. -/
inductive Thread
  | addVote (a : Arg) (against : List Nat) (pc : VotePc)
  | scheduleEnd (id hash : Hash) (ref b : Nat) (pc : EndPc)
  | statuses (id : Hash) (pc : StatusPc)

/-- The lock of an announced write. -/
def announce (announced : Bool) (l : Lock) : Option Lock := if announced then some l else none

/-- What a vote on a new box holds. -/
def slotLock : Option Nat → Lock × Mode
  | some ref => (.boxes ref, .write)
  | none => (.voting, .write)

/-- `round.Voting` is held to the end by the call that adds the ID. -/
def ownerLock (owner : Bool) : List (Lock × Mode) := if owner then [(.voting, .write)] else []

/-- The locks of a vote at each place. -/
def VotePc.stance : VotePc → Stance Lock
  | .wantVoting announced => ⟨[], announce announced .voting⟩
  | .heldVoting | .unlockVoting _ => ⟨[(.voting, .write)], none⟩
  | .wantBoxes ref announced => ⟨[], announce announced (.boxes ref)⟩
  | .heldBoxes ref? | .reserved ref? | .opened ref? _ => ⟨[slotLock ref?], none⟩
  | .wantBox ref b announced => ⟨[(.boxes ref, .write)], announce announced (.box b)⟩
  | .heldBox ref b => ⟨[(.boxes ref, .write), (.box b, .write)], none⟩
  | .unlockBox ref b owner _ => ⟨ownerLock owner ++ [(.boxes ref, .write), (.box b, .write)], none⟩
  | .unlockBoxes ref owner _ => ⟨ownerLock owner ++ [(.boxes ref, .write)], none⟩
  | .returned _ => .idle

/-- The locks of an expiration. -/
def EndPc.stance (ref b : Nat) : EndPc → Stance Lock
  | .sleeping | .cancelled | .wantBoxes | .returned _ => .idle
  | .wantBox announced => ⟨[(.boxes ref, .read)], announce announced (.box b)⟩
  | .heldBox | .unlockBox _ => ⟨[(.boxes ref, .read), (.box b, .write)], none⟩
  | .unlockBoxes _ => ⟨[(.boxes ref, .read)], none⟩

/-- The locks of a status call. -/
def StatusPc.stance : StatusPc → Stance Lock
  | .wantVoting | .wantBoxes _ | .returned => .idle
  | .heldVoting => ⟨[(.voting, .read)], none⟩
  | .reading ref _ | .wantBox ref _ _ => ⟨[(.boxes ref, .read)], none⟩
  | .readingBox ref b _ => ⟨[(.boxes ref, .read), (.box b, .read)], none⟩

/-- What is left of an `AddVote` that opens no box. -/
def VotePc.giveUp (e : VoteErr) : Option Nat → VotePc
  | some ref => .unlockBoxes ref false (.error e)
  | none => .unlockVoting (.error e)

def Thread.stance : Thread → Stance Lock
  | .addVote _ _ pc => pc.stance
  | .scheduleEnd _ _ ref b pc => pc.stance ref b
  | .statuses _ pc => pc.stance

/-- The call is over. -/
def Thread.finished : Thread → Bool
  | .addVote _ _ (.returned _) | .scheduleEnd _ _ _ _ .cancelled | .scheduleEnd _ _ _ _ (.returned _)
  | .statuses _ .returned => true
  | _ => false

/-- The call has a slot of `p` for a box it has not stored yet. -/
def Thread.reserves (p : Address) : Thread → Bool
  | .addVote a _ (.reserved _) | .addVote a _ (.opened _ _) => a.call.signer = p
  | _ => false

/-- The objects of one round, its limiter, and the goroutines. -/
structure State where
  heap : Heap
  limiter : Limiter
  threads : List Thread

namespace State

/-- The locks of all goroutines. -/
def stances (s : State) : List (Stance Lock) := s.threads.map Thread.stance

def set (s : State) (n : Nat) (t : Thread) : State := { s with threads := s.threads.set n t }

/-- The calls that have a slot of `p` for a box they have not stored yet. -/
def reserving (s : State) (p : Address) : List Nat :=
  (List.range s.threads.length).filter fun m => s.threads[m]?.any (·.reserves p)

end State

/-- A call starts, or the goroutine at `n` takes its next step. The timer of a
sleeping `scheduleEnd` fires, or its context is cancelled; a `Statuses` goes
on to any of the boxes it has not read, as `range` over a map does. -/
inductive Event
  | addVote (a : Arg)
  | statuses (id : Hash)
  | run (n : Nat)
  | pick (n k : Nat)
  | cancel (n : Nat)

section System

variable (dep : Deps) (cfg : Config) (policy : SigningPolicy)

/-- The next step of the `AddVote` at `n`; none while it waits for a lock. -/
def stepVote (s : State) (n : Nat) (a : Arg) (against : List Nat) (pc : VotePc) : Option State :=
  let goto (pc : VotePc) : State := s.set n (.addVote a against pc)
  match pc with
  | .wantVoting false => if Unclaimed s.stances .voting then some (goto (.wantVoting true)) else none
  | .wantVoting true => if Unheld s.stances .voting then some (goto .heldVoting) else none
  | .heldVoting => match s.heap.voting.get? a.id with
    | some ref => some (goto (.wantBoxes ref false))
    | none => some (goto (.heldBoxes none))
  | .wantBoxes ref false => if Unclaimed s.stances (.boxes ref) then some (goto (.wantBoxes ref true)) else none
  | .wantBoxes ref true => if Unheld s.stances (.boxes ref) then some (goto (.heldBoxes (some ref))) else none
  | .heldBoxes ref? => match s.heap.slotFind ref? a.hash with
    | some (ref, b) => some (goto (.wantBox ref b false))
    | none =>
      if a.clock.start.before ((GoTime.unix a.call.data.timestamp).add (-eventFutureSlack)) then
        some (goto (.giveUp .votingBeforeEvent ref?))
      else match s.limiter.increment a.call.signer with
        | .error e => some (s.set n (.addVote a (s.reserving a.call.signer) (.giveUp (.limiter e) ref?)))
        | .ok limiter => some { goto (.reserved ref?) with limiter }
  | .reserved ref? => match buildVoteBox dep cfg policy a.call a.clock.build with
    | .error e => some { goto (.giveUp e ref?) with limiter := s.limiter.decrement a.call.signer }
    | .ok box => some (goto (.opened ref? box))
  | .opened ref? box => match voteEffect dep policy a false box (s.heap.slotFinalizedHash ref?) with
    | (_, _, .error e) => some (goto (.giveUp e ref?))
    | (box', finalizedHash', .ok voted) =>
      let ref := s.heap.slotRef ref?
      let b := s.heap.voteBox.length
      some {
        heap := s.heap.publish ref? a.id a.hash box' finalizedHash'
        limiter := if voted.reached then s.limiter.decrement box'.proposer else s.limiter
        threads := s.threads.set n (.addVote a against (.unlockBox ref b ref?.isNone (.ok voted))) ++
          [.scheduleEnd a.id a.hash ref b .sleeping] }
  | .wantBox ref b false => if Unclaimed s.stances (.box b) then some (goto (.wantBox ref b true)) else none
  | .wantBox ref b true => if Unheld s.stances (.box b) then some (goto (.heldBox ref b)) else none
  | .heldBox ref b => match s.heap.voteBoxes[ref]?, s.heap.voteBox[b]? with
    | some c, some d =>
      let (box, finalizedHash, res) := voteEffect dep policy a true d.box c.finalizedHash
      some { goto (.unlockBox ref b false res) with
        heap := s.heap.write ref b box finalizedHash
        limiter := if releases res then s.limiter.decrement box.proposer else s.limiter }
    | _, _ => none
  | .unlockBox ref _ owner res => some (goto (.unlockBoxes ref owner res))
  | .unlockBoxes _ owner res => some (goto (if owner then .unlockVoting res else .returned res))
  | .unlockVoting res => some (goto (.returned res))
  | .returned _ => none

/-- The next step of the `scheduleEnd` at `n`. -/
def stepEnd (s : State) (n : Nat) (id hash : Hash) (ref b : Nat) (pc : EndPc) : Option State :=
  let goto (pc : EndPc) : State := s.set n (.scheduleEnd id hash ref b pc)
  match pc with
  | .sleeping => some (goto .wantBoxes)
  | .wantBoxes => if Unclaimed s.stances (.boxes ref) then some (goto (.wantBox false)) else none
  | .wantBox false => if Unclaimed s.stances (.box b) then some (goto (.wantBox true)) else none
  | .wantBox true => if Unheld s.stances (.box b) then some (goto .heldBox) else none
  | .heldBox => match s.heap.voteBoxes[ref]?, s.heap.voteBox[b]? with
    | some c, some d => some { goto (.unlockBox (d.box.endActions dep c.finalizedHash)) with
        heap := s.heap.write ref b d.box.delete c.finalizedHash }
    | _, _ => none
  | .unlockBox actions => some (goto (.unlockBoxes actions))
  | .unlockBoxes actions => some (goto (.returned actions))
  | .cancelled | .returned _ => none

/-- The next step of the `Statuses` at `n`. -/
def stepStatuses (s : State) (n : Nat) (id : Hash) (pc : StatusPc) : Option State :=
  let goto (pc : StatusPc) : State := s.set n (.statuses id pc)
  match pc with
  | .wantVoting => if Unclaimed s.stances .voting then some (goto .heldVoting) else none
  | .heldVoting => match s.heap.voting.get? id with
    | some ref => some (goto (.wantBoxes ref))
    | none => some (goto .returned)
  | .wantBoxes ref => match s.heap.voteBoxes[ref]? with
    | some c => if Unclaimed s.stances (.boxes ref) then some (goto (.reading ref c.m.values)) else none
    | none => none
  | .reading _ [] => some (goto .returned)
  | .reading _ (_ :: _) => none
  | .wantBox ref b todo => if Unclaimed s.stances (.box b) then some (goto (.readingBox ref b todo)) else none
  | .readingBox ref _ todo => some (goto (.reading ref todo))
  | .returned => none

/-- A call begins, or a goroutine takes its next step. -/
def step (s : State) : Event → Option State
  | .addVote a => some { s with threads := s.threads ++ [.addVote a [] (.wantVoting false)] }
  | .statuses id => some { s with threads := s.threads ++ [.statuses id .wantVoting] }
  | .run n => match s.threads[n]? with
    | some (.addVote a against pc) => stepVote dep cfg policy s n a against pc
    | some (.scheduleEnd id hash ref b pc) => stepEnd dep s n id hash ref b pc
    | some (.statuses id pc) => stepStatuses s n id pc
    | none => none
  | .pick n k => match s.threads[n]? with
    | some (.statuses id (.reading ref todo)) =>
      todo[k]?.map fun b => s.set n (.statuses id (.wantBox ref b (todo.eraseIdx k)))
    | _ => none
  | .cancel n => match s.threads[n]? with
    | some (.scheduleEnd id hash ref b .sleeping) => some (s.set n (.scheduleEnd id hash ref b .cancelled))
    | _ => none

def start : State := ⟨.empty, .new policy.voters.voters cfg.maxPendingRequests, []⟩

/-- The goroutines of one round. -/
def system : Lts.System State Event where
  init s := s = start cfg policy
  step := step dep cfg policy

/-! ## What a step does

The moves that leave the boxes and the limiter alone are listed per
goroutine; a step is one of them, one of the eight that do not, or a new
call. -/

/-- The steps of a vote that change its place only. -/
inductive VoteQuiet (s : State) (a : Arg) : VotePc → VotePc → Prop
  | announceVoting : Unclaimed s.stances .voting → VoteQuiet s a (.wantVoting false) (.wantVoting true)
  | enterVoting : Unheld s.stances .voting → VoteQuiet s a (.wantVoting true) .heldVoting
  | known {ref} : s.heap.voting.get? a.id = some ref → VoteQuiet s a .heldVoting (.wantBoxes ref false)
  | new : s.heap.voting.get? a.id = none → VoteQuiet s a .heldVoting (.heldBoxes none)
  | announceBoxes {ref} : Unclaimed s.stances (.boxes ref) → VoteQuiet s a (.wantBoxes ref false) (.wantBoxes ref true)
  | enterBoxes {ref} : Unheld s.stances (.boxes ref) → VoteQuiet s a (.wantBoxes ref true) (.heldBoxes (some ref))
  | found {ref? ref b} : s.heap.slotFind ref? a.hash = some (ref, b) →
      VoteQuiet s a (.heldBoxes ref?) (.wantBox ref b false)
  | built {ref? box} : buildVoteBox dep cfg policy a.call a.clock.build = .ok box →
      VoteQuiet s a (.reserved ref?) (.opened ref? box)
  | announceBox {ref b} : Unclaimed s.stances (.box b) → VoteQuiet s a (.wantBox ref b false) (.wantBox ref b true)
  | enterBox {ref b} : Unheld s.stances (.box b) → VoteQuiet s a (.wantBox ref b true) (.heldBox ref b)
  | unlockBox {ref b owner res} : VoteQuiet s a (.unlockBox ref b owner res) (.unlockBoxes ref owner res)
  | unlockOwner {ref res} : VoteQuiet s a (.unlockBoxes ref true res) (.unlockVoting res)
  | unlockBoxes {ref res} : VoteQuiet s a (.unlockBoxes ref false res) (.returned res)
  | unlockVoting {res} : VoteQuiet s a (.unlockVoting res) (.returned res)

/-- The steps of an expiration that change its place only. -/
inductive EndQuiet (s : State) (ref b : Nat) : EndPc → EndPc → Prop
  | wake : EndQuiet s ref b .sleeping .wantBoxes
  | cancel : EndQuiet s ref b .sleeping .cancelled
  | enterBoxes : Unclaimed s.stances (.boxes ref) → EndQuiet s ref b .wantBoxes (.wantBox false)
  | announceBox : Unclaimed s.stances (.box b) → EndQuiet s ref b (.wantBox false) (.wantBox true)
  | enterBox : Unheld s.stances (.box b) → EndQuiet s ref b (.wantBox true) .heldBox
  | unlockBox {actions} : EndQuiet s ref b (.unlockBox actions) (.unlockBoxes actions)
  | unlockBoxes {actions} : EndQuiet s ref b (.unlockBoxes actions) (.returned actions)

/-- The steps of a status call. -/
inductive StatusQuiet (s : State) (id : Hash) : StatusPc → StatusPc → Prop
  | enterVoting : Unclaimed s.stances .voting → StatusQuiet s id .wantVoting .heldVoting
  | known {ref} : s.heap.voting.get? id = some ref → StatusQuiet s id .heldVoting (.wantBoxes ref)
  | missing : StatusQuiet s id .heldVoting .returned
  | enterBoxes {ref c} : s.heap.voteBoxes[ref]? = some c → Unclaimed s.stances (.boxes ref) →
      StatusQuiet s id (.wantBoxes ref) (.reading ref c.m.values)
  | pick {ref b k} {todo : List Nat} : todo[k]? = some b →
      StatusQuiet s id (.reading ref todo) (.wantBox ref b (todo.eraseIdx k))
  | enterBox {ref b todo} : Unclaimed s.stances (.box b) →
      StatusQuiet s id (.wantBox ref b todo) (.readingBox ref b todo)
  | unlockBox {ref b todo} : StatusQuiet s id (.readingBox ref b todo) (.reading ref todo)
  | unlockBoxes {ref} : StatusQuiet s id (.reading ref []) .returned

/-- A step that changes the place of one goroutine only. -/
inductive Quiet (s : State) : Thread → Thread → Prop
  | addVote {a against pc pc'} : VoteQuiet dep cfg policy s a pc pc' →
      Quiet s (.addVote a against pc) (.addVote a against pc')
  | scheduleEnd {id hash ref b pc pc'} : EndQuiet s ref b pc pc' →
      Quiet s (.scheduleEnd id hash ref b pc) (.scheduleEnd id hash ref b pc')
  | statuses {id pc pc'} : StatusQuiet s id pc pc' → Quiet s (.statuses id pc) (.statuses id pc')

/-- The event of the instruction lies too far ahead. -/
def Early (a : Arg) : Prop :=
  a.clock.start.before ((GoTime.unix a.call.data.timestamp).add (-eventFutureSlack)) = true

inductive Step (s : State) : State → Prop
  | addVote (a) : Step s { s with threads := s.threads ++ [.addVote a [] (.wantVoting false)] }
  | statuses (id) : Step s { s with threads := s.threads ++ [.statuses id .wantVoting] }
  | quiet {n : Nat} {t t' : Thread} : s.threads[n]? = some t → Quiet dep cfg policy s t t' → Step s (s.set n t')
  | early {n : Nat} {a against ref?} : s.threads[n]? = some (.addVote a against (.heldBoxes ref?)) →
      s.heap.slotFind ref? a.hash = none → Early a →
      Step s (s.set n (.addVote a against (.giveUp .votingBeforeEvent ref?)))
  | full {n : Nat} {a against ref? e} : s.threads[n]? = some (.addVote a against (.heldBoxes ref?)) →
      s.heap.slotFind ref? a.hash = none → ¬ Early a → s.limiter.increment a.call.signer = .error e →
      Step s (s.set n (.addVote a (s.reserving a.call.signer) (.giveUp (.limiter e) ref?)))
  | reserve {n : Nat} {a against ref? limiter} : s.threads[n]? = some (.addVote a against (.heldBoxes ref?)) →
      s.heap.slotFind ref? a.hash = none → ¬ Early a → s.limiter.increment a.call.signer = .ok limiter →
      Step s { s.set n (.addVote a against (.reserved ref?)) with limiter }
  | buildFailed {n : Nat} {a against ref? e} : s.threads[n]? = some (.addVote a against (.reserved ref?)) →
      buildVoteBox dep cfg policy a.call a.clock.build = .error e →
      Step s { s.set n (.addVote a against (.giveUp e ref?)) with limiter := s.limiter.decrement a.call.signer }
  | firstFailed {n : Nat} {a against ref? box box' fin e} :
      s.threads[n]? = some (.addVote a against (.opened ref? box)) →
      voteEffect dep policy a false box (s.heap.slotFinalizedHash ref?) = (box', fin, .error e) →
      Step s (s.set n (.addVote a against (.giveUp e ref?)))
  | publish {n : Nat} {a against ref? box box' fin voted} :
      s.threads[n]? = some (.addVote a against (.opened ref? box)) →
      voteEffect dep policy a false box (s.heap.slotFinalizedHash ref?) = (box', fin, .ok voted) →
      Step s {
        heap := s.heap.publish ref? a.id a.hash box' fin
        limiter := if voted.reached then s.limiter.decrement box'.proposer else s.limiter
        threads := s.threads.set n (.addVote a against
            (.unlockBox (s.heap.slotRef ref?) s.heap.voteBox.length ref?.isNone (.ok voted))) ++
          [.scheduleEnd a.id a.hash (s.heap.slotRef ref?) s.heap.voteBox.length .sleeping] }
  | vote {n : Nat} {a against ref b c d box fin res} : s.threads[n]? = some (.addVote a against (.heldBox ref b)) →
      s.heap.voteBoxes[ref]? = some c → s.heap.voteBox[b]? = some d →
      voteEffect dep policy a true d.box c.finalizedHash = (box, fin, res) →
      Step s { s.set n (.addVote a against (.unlockBox ref b false res)) with
        heap := s.heap.write ref b box fin
        limiter := if releases res then s.limiter.decrement box.proposer else s.limiter }
  | expire {n : Nat} {id hash ref b c d} : s.threads[n]? = some (.scheduleEnd id hash ref b .heldBox) →
      s.heap.voteBoxes[ref]? = some c → s.heap.voteBox[b]? = some d →
      Step s { s.set n (.scheduleEnd id hash ref b (.unlockBox (d.box.endActions dep c.finalizedHash))) with
        heap := s.heap.write ref b d.box.delete c.finalizedHash }

end System

section Inversion

variable {dep : Deps} {cfg : Config} {policy : SigningPolicy} {s s' : State} {n : Nat}

/-- What is guarded by a lock happens where the lock was free. -/
theorem free_of_guard {P : Prop} [Decidable P] {x : State} (h : (if P then some x else none) = some s') :
    P ∧ s' = x := by
  split at h
  next hp => exact ⟨hp, (Option.some.inj h).symm⟩
  next => cases h

theorem stepVote_inv {a : Arg} {against : List Nat} {pc : VotePc} (hn : s.threads[n]? = some (.addVote a against pc))
    (h : stepVote dep cfg policy s n a against pc = some s') : Step dep cfg policy s s' := by
  cases pc with
  | wantVoting announced =>
    cases announced <;> obtain ⟨hfree, rfl⟩ := free_of_guard h
    · exact .quiet hn (.addVote (.announceVoting hfree))
    · exact .quiet hn (.addVote (.enterVoting hfree))
  | heldVoting =>
    simp only [stepVote] at h
    split at h <;> cases h
    next hget => exact .quiet hn (.addVote (.known hget))
    next hget => exact .quiet hn (.addVote (.new hget))
  | wantBoxes ref announced =>
    cases announced <;> obtain ⟨hfree, rfl⟩ := free_of_guard h
    · exact .quiet hn (.addVote (.announceBoxes hfree))
    · exact .quiet hn (.addVote (.enterBoxes hfree))
  | heldBoxes ref? =>
    simp only [stepVote] at h
    split at h
    next hfind => cases h; exact .quiet hn (.addVote (.found hfind))
    next hfind =>
    split at h
    next hearly => cases h; exact .early hn hfind hearly
    next hearly =>
    split at h <;> cases h
    next hfull => exact .full hn hfind hearly hfull
    next hinc => exact .reserve hn hfind hearly hinc
  | reserved ref? =>
    simp only [stepVote] at h
    split at h <;> cases h
    next hb => exact .buildFailed hn hb
    next hb => exact .quiet hn (.addVote (.built hb))
  | opened ref? box =>
    simp only [stepVote] at h
    split at h <;> cases h
    next he => exact .firstFailed hn he
    next he => exact .publish hn he
  | wantBox ref b announced =>
    cases announced <;> obtain ⟨hfree, rfl⟩ := free_of_guard h
    · exact .quiet hn (.addVote (.announceBox hfree))
    · exact .quiet hn (.addVote (.enterBox hfree))
  | heldBox ref b =>
    simp only [stepVote] at h
    split at h <;> cases h
    next hc hd => exact .vote hn hc hd rfl
  | unlockBox => cases h; exact .quiet hn (.addVote .unlockBox)
  | unlockBoxes ref owner res =>
    cases owner <;> cases h
    · exact .quiet hn (.addVote .unlockBoxes)
    · exact .quiet hn (.addVote .unlockOwner)
  | unlockVoting => cases h; exact .quiet hn (.addVote .unlockVoting)
  | returned => cases h

theorem stepEnd_inv {id hash : Hash} {ref b : Nat} {pc : EndPc}
    (hn : s.threads[n]? = some (.scheduleEnd id hash ref b pc)) (h : stepEnd dep s n id hash ref b pc = some s') :
    Step dep cfg policy s s' := by
  cases pc with
  | sleeping => cases h; exact .quiet hn (.scheduleEnd .wake)
  | wantBoxes =>
    obtain ⟨hfree, rfl⟩ := free_of_guard h
    exact .quiet hn (.scheduleEnd (.enterBoxes hfree))
  | wantBox announced =>
    cases announced <;> obtain ⟨hfree, rfl⟩ := free_of_guard h
    · exact .quiet hn (.scheduleEnd (.announceBox hfree))
    · exact .quiet hn (.scheduleEnd (.enterBox hfree))
  | heldBox =>
    simp only [stepEnd] at h
    split at h <;> cases h
    next hc hd => exact .expire hn hc hd
  | unlockBox => cases h; exact .quiet hn (.scheduleEnd .unlockBox)
  | unlockBoxes => cases h; exact .quiet hn (.scheduleEnd .unlockBoxes)
  | cancelled => cases h
  | returned => cases h

theorem stepStatuses_inv {id : Hash} {pc : StatusPc} (hn : s.threads[n]? = some (.statuses id pc))
    (h : stepStatuses s n id pc = some s') : Step dep cfg policy s s' := by
  cases pc with
  | wantVoting =>
    obtain ⟨hfree, rfl⟩ := free_of_guard h
    exact .quiet hn (.statuses (.enterVoting hfree))
  | heldVoting =>
    simp only [stepStatuses] at h
    split at h <;> cases h
    next hget => exact .quiet hn (.statuses (.known hget))
    next => exact .quiet hn (.statuses .missing)
  | wantBoxes ref =>
    simp only [stepStatuses] at h
    split at h
    next hc =>
      obtain ⟨hfree, rfl⟩ := free_of_guard h
      exact .quiet hn (.statuses (.enterBoxes hc hfree))
    next => cases h
  | reading ref todo =>
    cases todo <;> cases h
    exact .quiet hn (.statuses .unlockBoxes)
  | wantBox ref b todo =>
    obtain ⟨hfree, rfl⟩ := free_of_guard h
    exact .quiet hn (.statuses (.enterBox hfree))
  | readingBox => cases h; exact .quiet hn (.statuses .unlockBox)
  | returned => cases h

/-- **The cases of a step.** -/
theorem step_inv {e : Event} (h : step dep cfg policy s e = some s') : Step dep cfg policy s s' := by
  cases e with
  | addVote a => cases h; exact .addVote a
  | statuses id => cases h; exact .statuses id
  | run n =>
    simp only [step] at h
    split at h
    next hn => exact stepVote_inv hn h
    next hn => exact stepEnd_inv hn h
    next hn => exact stepStatuses_inv hn h
    next => cases h
  | pick n k =>
    simp only [step] at h
    split at h
    next hn =>
      obtain ⟨b, hb, rfl⟩ := Option.map_eq_some_iff.mp h
      exact .quiet hn (.statuses (.pick hb))
    next => cases h
  | cancel n =>
    simp only [step] at h
    split at h
    next hn => cases h; exact .quiet hn (.scheduleEnd .cancel)
    next => cases h

end Inversion

/-! ## What the locks guard

A goroutine knows facts about the heap that it read under locks. Where the
object of an ID is, and where a box is, never changes; that an ID has no
object yet, or a hash no box, is known while the lock on it is held for
writing. -/

section Guarded

variable (dep : Deps) (cfg : Config) (policy : SigningPolicy)

/-- What a vote knows of the objects at each place. -/
def VotePc.Knows (h : Heap) (a : Arg) : VotePc → Prop
  | .wantVoting _ | .heldVoting | .unlockVoting _ | .returned _ => True
  | .wantBoxes ref _ | .unlockBoxes ref _ _ => h.IsFor ref a.id
  | .heldBoxes ref? => h.Slot a.id ref?
  | .reserved ref? => h.Slot a.id ref? ∧ h.box? a.id a.hash = none
  | .opened ref? box => h.Slot a.id ref? ∧ h.box? a.id a.hash = none ∧
      buildVoteBox dep cfg policy a.call a.clock.build = .ok box
  | .wantBox ref b _ | .heldBox ref b | .unlockBox ref b _ _ => h.IsFor ref a.id ∧ h.IsBox b a.id a.hash

/-- What a status call knows of them. -/
def StatusPc.Knows (h : Heap) (id : Hash) : StatusPc → Prop
  | .wantVoting | .heldVoting | .returned => True
  | .wantBoxes ref => h.IsFor ref id
  | .reading ref todo => h.IsFor ref id ∧ ∀ b ∈ todo, ∃ hash, h.IsBox b id hash
  | .wantBox ref b todo | .readingBox ref b todo =>
    h.IsFor ref id ∧ (∃ hash, h.IsBox b id hash) ∧ ∀ b ∈ todo, ∃ hash, h.IsBox b id hash

/-- What a goroutine knows of them. -/
def Thread.Knows (h : Heap) : Thread → Prop
  | .addVote a _ pc => pc.Knows dep cfg policy h a
  | .scheduleEnd id hash ref b _ => h.IsFor ref id ∧ h.IsBox b id hash
  | .statuses id pc => pc.Knows h id

/-- The objects are in order, the locks exclude, and what the goroutines know is
so. -/
structure Guarded (s : State) : Prop where
  heap : s.heap.OK
  exclusive : RwMutex.Exclusive s.stances
  knows : ∀ (n : Nat) (t : Thread), s.threads[n]? = some t → t.Knows dep cfg policy s.heap

/-- The vote that holds the slot of an ID for a box that is not there. -/
def Thread.slot? : Thread → Option (Arg × Option Nat)
  | .addVote a _ (.heldBoxes ref?) | .addVote a _ (.reserved ref?) | .addVote a _ (.opened ref? _) => some (a, ref?)
  | _ => none

end Guarded

section Invariant

variable {dep : Deps} {cfg : Config} {policy : SigningPolicy} {s s' : State} {n m : Nat} {t t' : Thread} {h h' : Heap}

theorem slotLock_of_find {ref? : Option Nat} {hash : Hash} {ref b : Nat}
    (hfind : h.slotFind ref? hash = some (ref, b)) :
    slotLock ref? = (.boxes ref, .write) := by
  simp only [Heap.slotFind, Option.bind_eq_some_iff, Option.map_eq_some_iff, Prod.mk.injEq] at hfind
  obtain ⟨_, rfl, _, _, rfl, _⟩ := hfind
  rfl

theorem VoteQuiet.acquires {a : Arg} {pc pc' : VotePc} (hq : VoteQuiet dep cfg policy s a pc pc') :
    RwMutex.Acquires s.stances pc.stance pc'.stance := by
  cases hq with
  | enterVoting hfree => exact .write hfree (by simp [VotePc.stance])
  | enterBoxes hfree => exact .write hfree (by simp [VotePc.stance, slotLock])
  | enterBox hfree => exact .write hfree (by simp [VotePc.stance])
  | found hfind => exact .keep (by simp [VotePc.stance, slotLock_of_find hfind])
  | unlockBox =>
    refine .keep fun x hx => ?_
    rw [VotePc.stance, List.mem_append, List.mem_singleton] at hx
    rcases hx with hx | rfl <;> simp [VotePc.stance, *]
  | _ => exact .keep (by simp [VotePc.stance, slotLock, ownerLock, Stance.idle])

theorem EndQuiet.acquires {ref b : Nat} {pc pc' : EndPc} (hq : EndQuiet s ref b pc pc') :
    RwMutex.Acquires s.stances (pc.stance ref b) (pc'.stance ref b) := by
  cases hq with
  | enterBoxes hfree => exact .read hfree (by simp [EndPc.stance])
  | enterBox hfree => exact .write hfree (by simp [EndPc.stance])
  | _ => exact .keep (by simp [EndPc.stance, Stance.idle])

theorem StatusQuiet.acquires {id : Hash} {pc pc' : StatusPc} (hq : StatusQuiet s id pc pc') :
    RwMutex.Acquires s.stances pc.stance pc'.stance := by
  cases hq with
  | enterVoting hfree => exact .read hfree (by simp [StatusPc.stance])
  | enterBoxes _ hfree => exact .read hfree (by simp [StatusPc.stance])
  | enterBox hfree => exact .read hfree (by simp [StatusPc.stance])
  | _ => exact .keep (by simp [StatusPc.stance, Stance.idle])

theorem Quiet.acquires (hq : Quiet dep cfg policy s t t') : RwMutex.Acquires s.stances t.stance t'.stance := by
  cases hq with
  | addVote hq => exact hq.acquires
  | scheduleEnd hq => exact hq.acquires
  | statuses hq => exact hq.acquires

theorem VoteQuiet.knows {a : Arg} {pc pc' : VotePc} (hok : s.heap.OK) (hq : VoteQuiet dep cfg policy s a pc pc')
    (hk : pc.Knows dep cfg policy s.heap a) : pc'.Knows dep cfg policy s.heap a := by
  cases hq with
  | known hget => exact (hok.voting _ _).mp hget
  | new hget => exact hget
  | found hfind => exact hok.slotFind_some hk hfind
  | built hb => exact ⟨hk.1, hk.2, hb⟩
  | unlockBox => exact hk.1
  | announceVoting | enterVoting | unlockOwner | unlockBoxes | unlockVoting => trivial
  | announceBoxes | enterBoxes | announceBox | enterBox => exact hk

theorem StatusQuiet.knows {id : Hash} {pc pc' : StatusPc} (hok : s.heap.OK) (hq : StatusQuiet s id pc pc')
    (hk : pc.Knows s.heap id) : pc'.Knows s.heap id := by
  cases hq with
  | known hget => exact (hok.voting _ _).mp hget
  | enterBoxes hc =>
    refine ⟨hk, fun b hb => ?_⟩
    obtain ⟨hash, hget⟩ := GoMap.mem_values.mp hb
    exact ⟨hash, (hok.find _ b id hash hk).mp (by rw [Heap.find, hc]; exact hget)⟩
  | pick hb => exact ⟨hk.1, hk.2 _ (List.mem_of_getElem? hb), fun b hb => hk.2 b (List.mem_of_mem_eraseIdx hb)⟩
  | unlockBox => exact ⟨hk.1, hk.2.2⟩
  | enterBox => exact hk
  | enterVoting | missing | unlockBoxes => trivial

theorem Quiet.knows (hok : s.heap.OK) (hq : Quiet dep cfg policy s t t') (hk : t.Knows dep cfg policy s.heap) :
    t'.Knows dep cfg policy s.heap := by
  cases hq with
  | addVote hq => exact hq.knows hok hk
  | scheduleEnd hq => exact hk
  | statuses hq => exact hq.knows hok hk

/-! ## What stays known when the heap changes -/

/-- The places of objects and boxes stay; the rest has to be shown for the
vote that relies on it. -/
theorem Thread.Knows.mono (hfor : ∀ ref id, h.IsFor ref id → h'.IsFor ref id)
    (hbox : ∀ b id hash, h.IsBox b id hash → h'.IsBox b id hash)
    (hslot : ∀ a ref?, t.slot? = some (a, ref?) →
      (h.Slot a.id ref? → h'.Slot a.id ref?) ∧ (h.box? a.id a.hash = none → h'.box? a.id a.hash = none))
    (hk : t.Knows dep cfg policy h) : t.Knows dep cfg policy h' := by
  cases t with
  | addVote a against pc =>
    cases pc with
    | wantVoting | heldVoting | unlockVoting | returned => trivial
    | wantBoxes | unlockBoxes => exact hfor _ _ hk
    | heldBoxes ref? => exact (hslot a ref? rfl).1 hk
    | reserved ref? =>
      obtain ⟨hs, hb⟩ := hslot a ref? rfl
      exact ⟨hs hk.1, hb hk.2⟩
    | opened ref? box =>
      obtain ⟨hs, hb⟩ := hslot a ref? rfl
      exact ⟨hs hk.1, hb hk.2.1, hk.2.2⟩
    | wantBox | heldBox | unlockBox => exact ⟨hfor _ _ hk.1, hbox _ _ _ hk.2⟩
  | scheduleEnd id hash ref b pc => exact ⟨hfor _ _ hk.1, hbox _ _ _ hk.2⟩
  | statuses id pc =>
    have hany : ∀ b, (∃ hash, h.IsBox b id hash) → ∃ hash, h'.IsBox b id hash := by
      intro b hb
      obtain ⟨hash, hb⟩ := hb
      exact ⟨hash, hbox b id hash hb⟩
    cases pc with
    | wantVoting | heldVoting | returned => trivial
    | wantBoxes => exact hfor _ _ hk
    | reading => exact ⟨hfor _ _ hk.1, fun b hb => hany b (hk.2 b hb)⟩
    | wantBox | readingBox => exact ⟨hfor _ _ hk.1, hany _ hk.2.1, fun b hb => hany b (hk.2.2 b hb)⟩

theorem Thread.Knows.write {ref b : Nat} {box : VoteBox} {fin : Hash} (hok : h.OK) (hk : t.Knows dep cfg policy h) :
    t.Knows dep cfg policy (h.write ref b box fin) := by
  refine hk.mono (fun _ _ => Heap.isFor_write.mpr) (fun _ _ _ => Heap.isBox_write.mpr) fun a ref? _ =>
    ⟨fun hs => ?_, ?_⟩
  · cases ref? with
    | some ref => exact Heap.isFor_write.mpr hs
    | none => exact hs
  · rw [hok.box?_none, hok.write.box?_none]
    exact fun hno b hb => hno b (Heap.isBox_write.mp hb)

theorem Thread.slot?_holds {a : Arg} {ref? : Option Nat} (ht : t.slot? = some (a, ref?)) :
    slotLock ref? ∈ t.stance.held := by
  unfold Thread.slot? at ht
  split at ht <;> cases ht <;> exact List.mem_singleton.mpr rfl

theorem Thread.slot?_slot {a : Arg} {ref? : Option Nat} (ht : t.slot? = some (a, ref?))
    (hk : t.Knows dep cfg policy h) : h.Slot a.id ref? := by
  unfold Thread.slot? at ht
  split at ht <;> cases ht
  · exact hk
  · exact hk.1
  · exact hk.1

theorem stances_of_thread (hn : s.threads[n]? = some t) : s.stances[n]? = some t.stance := by
  rw [State.stances, List.getElem?_map, hn]
  rfl

/-- **Alone in the slot.** Whoever holds the lock of a slot that a vote has
is that vote. -/
theorem Guarded.alone (hg : Guarded dep cfg policy s) {a : Arg} {ref? ref?' : Option Nat} (hn : s.threads[n]? = some t)
    (ht : t.slot? = some (a, ref?)) (hm : s.threads[m]? = some t') (hslot : s.heap.Slot a.id ref?')
    (hh : t'.stance.holds (slotLock ref?').1) : n = m := by
  have heq := hg.heap.slot_eq (Thread.slot?_slot ht (hg.knows n t hn)) hslot
  subst heq
  refine hg.exclusive n m _ _ (slotLock ref?).1 (stances_of_thread hn) (stances_of_thread hm) ?_ hh
  have := Thread.slot?_holds ht
  cases ref? <;> exact this

/-! ## The locks keep the invariant -/

/-- A lock of an object that is in memory. -/
def Inside (h : Heap) : Lock → Prop
  | .voting => True
  | .boxes ref => ref < h.voteBoxes.length
  | .box b => b < h.voteBox.length

theorem slotLock_inside {id : Hash} {ref? : Option Nat} (hslot : h.Slot id ref?) : Inside h (slotLock ref?).1 := by
  cases ref? with
  | some ref => exact hslot.lt
  | none => trivial

theorem Thread.holds_inside (hk : t.Knows dep cfg policy h) :
    ∀ x ∈ t.stance.held, Inside h x.1 := by
  cases t with
  | addVote a against pc =>
    cases pc with
    | wantVoting | wantBoxes | returned => simp [Thread.stance, VotePc.stance, Stance.idle]
    | heldVoting | unlockVoting => simp [Thread.stance, VotePc.stance, Inside]
    | heldBoxes ref? => simpa [Thread.stance, VotePc.stance] using slotLock_inside hk
    | reserved ref? | opened ref? => simpa [Thread.stance, VotePc.stance] using slotLock_inside hk.1
    | wantBox => simpa [Thread.stance, VotePc.stance, Inside] using hk.1.lt
    | heldBox => simpa [Thread.stance, VotePc.stance, Inside] using ⟨hk.1.lt, hk.2.lt⟩
    | unlockBox ref b owner =>
      have hin := And.intro hk.1.lt hk.2.lt
      cases owner <;> simpa [Thread.stance, VotePc.stance, ownerLock, Inside] using hin
    | unlockBoxes ref owner =>
      have hin := Heap.IsFor.lt hk
      cases owner <;> simpa [Thread.stance, VotePc.stance, ownerLock, Inside] using hin
  | scheduleEnd id hash ref b pc =>
    have hboxes := hk.1.lt
    have hbox := hk.2.lt
    cases pc <;> simp [Thread.stance, EndPc.stance, Stance.idle, Inside, hboxes, hbox]
  | statuses id pc =>
    cases pc with
    | wantVoting | wantBoxes | returned => simp [Thread.stance, StatusPc.stance, Stance.idle]
    | heldVoting => simp [Thread.stance, StatusPc.stance, Inside]
    | reading | wantBox => simpa [Thread.stance, StatusPc.stance, Inside] using hk.1.lt
    | readingBox =>
      obtain ⟨hfor, ⟨hash, hbox⟩, -⟩ := hk
      simpa [Thread.stance, StatusPc.stance, Inside] using ⟨hfor.lt, hbox.lt⟩

theorem Guarded.unheld (hg : Guarded dep cfg policy s) {l : Lock} (hl : ¬ Inside s.heap l) : Unheld s.stances l := by
  intro st hst hh
  obtain ⟨t, ht, rfl⟩ := List.mem_map.mp hst
  obtain ⟨n, hn⟩ := List.getElem?_of_mem ht
  have hin := Thread.holds_inside (hg.knows n t hn)
  rcases hh with hr | hw
  · exact hl (hin _ hr)
  · exact hl (hin _ hw)

/-- The rule for a move: the goroutine takes free locks and knows what it
needs, and the others still know what they knew. -/
theorem Guarded.move (hg : Guarded dep cfg policy s) (hn : s.threads[n]? = some t) (limiter : Limiter)
    (ha : RwMutex.Acquires s.stances t.stance t'.stance) (hok : h'.OK) (hmine : t'.Knows dep cfg policy h')
    (hothers : ∀ m u, m ≠ n → s.threads[m]? = some u → u.Knows dep cfg policy h') :
    Guarded dep cfg policy ⟨h', limiter, s.threads.set n t'⟩ := by
  refine ⟨hok, ?_, fun m u hm => ?_⟩
  · rw [State.stances, List.map_set]
    exact hg.exclusive.set (stances_of_thread hn) ha
  · rw [List.getElem?_set] at hm
    split at hm
    next heq =>
      split at hm <;> cases hm
      exact hmine
    next hne => exact hothers m u (Ne.symm hne) hm

theorem Guarded.spawn (hg : Guarded dep cfg policy s) (ht : t.stance.held = []) (hk : t.Knows dep cfg policy s.heap) :
    Guarded dep cfg policy { s with threads := s.threads ++ [t] } := by
  refine ⟨hg.heap, ?_, Lts.forall_snoc hk hg.knows⟩
  rw [State.stances, List.map_append, List.map_singleton]
  exact hg.exclusive.spawn ht

theorem Guarded.quiet (hg : Guarded dep cfg policy s) (hn : s.threads[n]? = some t) (limiter : Limiter)
    (ha : RwMutex.Acquires s.stances t.stance t'.stance) (hmine : t'.Knows dep cfg policy s.heap) :
    Guarded dep cfg policy { s.set n t' with limiter } :=
  hg.move hn limiter ha hg.heap hmine fun m u _ hm => hg.knows m u hm

theorem giveUp_held {a : Arg} {against : List Nat} {e : VoteErr} {ref? : Option Nat} :
    (Thread.addVote a against (.giveUp e ref?)).stance.held = [slotLock ref?] := by
  cases ref? <;> rfl

theorem giveUp_knows {a : Arg} {against : List Nat} {e : VoteErr} {ref? : Option Nat} (hslot : h.Slot a.id ref?) :
    (Thread.addVote a against (.giveUp e ref?)).Knows dep cfg policy h := by
  cases ref? with
  | some ref => exact hslot
  | none => trivial

theorem Guarded.giveUp (hg : Guarded dep cfg policy s) {a : Arg} {against : List Nat} {e : VoteErr}
    {ref? : Option Nat} (hn : s.threads[n]? = some t) (ht : t.slot? = some (a, ref?)) (limiter : Limiter) :
    Guarded dep cfg policy { s.set n (.addVote a against (.giveUp e ref?)) with limiter } := by
  refine hg.quiet hn limiter (.keep fun x hx => ?_) (giveUp_knows (Thread.slot?_slot ht (hg.knows n t hn)))
  rw [giveUp_held, List.mem_singleton] at hx
  rw [hx]
  exact Thread.slot?_holds ht

/-- The votes on other IDs are not concerned by a new box, and there is no
other on this ID. -/
theorem Guarded.knows_publish (hg : Guarded dep cfg policy s) {a : Arg} {ref? : Option Nat} {box : VoteBox} {fin : Hash}
    (hn : s.threads[n]? = some t) (ht : t.slot? = some (a, ref?)) (hno : s.heap.box? a.id a.hash = none) (hmn : m ≠ n)
    (hm : s.threads[m]? = some t') : t'.Knows dep cfg policy (s.heap.publish ref? a.id a.hash box fin) := by
  have hslot := Thread.slot?_slot ht (hg.knows n t hn)
  refine (hg.knows m t' hm).mono (fun _ _ hf => Heap.isFor_publish.mpr (.inl hf))
    (fun _ _ _ hb => Heap.isBox_publish.mpr (.inl hb)) fun a' ref?' ht' => ?_
  have hne : a'.id ≠ a.id := by
    intro heq
    have hslot' := Thread.slot?_slot ht' (hg.knows m t' hm)
    rw [heq] at hslot'
    refine hmn (hg.alone hn ht hm hslot' (Stance.holds_of_mem (m := (slotLock ref?').2) ?_)).symm
    exact Thread.slot?_holds ht'
  refine ⟨fun hs => ?_, fun hnone => ?_⟩
  · cases ref?' with
    | some ref => exact Heap.isFor_publish.mpr (.inl hs)
    | none =>
      rw [Heap.Slot, Heap.voting_publish hg.heap hslot, if_neg hne]
      exact hs
  · rw [hg.heap.box?_publish hslot hno, if_neg fun h => hne h.1]
    exact hnone

/-- The locks of the vote that stored its new box: it made the box, and where
the ID was new its object too. -/
theorem Guarded.acquires_publish (hg : Guarded dep cfg policy s) {a : Arg} {against against' : List Nat}
    {ref? : Option Nat} {box : VoteBox} {res : Except VoteErr Voted} :
    RwMutex.Acquires s.stances (Thread.addVote a against (.opened ref? box)).stance
      (Thread.addVote a against' (.unlockBox (s.heap.slotRef ref?) s.heap.voteBox.length ref?.isNone res)).stance := by
  have hnewBox : Unheld s.stances (.box s.heap.voteBox.length) := hg.unheld (Nat.lt_irrefl _)
  have hnewBoxes : Unheld s.stances (.boxes s.heap.voteBoxes.length) := hg.unheld (Nat.lt_irrefl _)
  intro l mode hmem
  cases ref? with
  | some ref =>
    simp only [Thread.stance, VotePc.stance, ownerLock, Heap.slotRef, Option.isNone_some, Bool.false_eq_true, if_false,
      Option.getD_some, List.nil_append, List.mem_cons, List.not_mem_nil, or_false, Prod.mk.injEq] at hmem
    rcases hmem with ⟨rfl, rfl⟩ | ⟨rfl, rfl⟩
    · exact .inl (List.mem_singleton.mpr rfl)
    · exact .inr hnewBox
  | none =>
    simp only [Thread.stance, VotePc.stance, ownerLock, Heap.slotRef, Option.isNone_none, if_true, Option.getD_none,
      List.cons_append, List.nil_append, List.mem_cons, List.not_mem_nil, or_false, Prod.mk.injEq] at hmem
    rcases hmem with ⟨rfl, rfl⟩ | ⟨rfl, rfl⟩ | ⟨rfl, rfl⟩
    · exact .inl (List.mem_singleton.mpr rfl)
    · exact .inr hnewBoxes
    · exact .inr hnewBox

theorem Guarded.step (hg : Guarded dep cfg policy s) (hs : Step dep cfg policy s s') : Guarded dep cfg policy s' := by
  cases hs with
  | addVote a => exact hg.spawn rfl trivial
  | statuses id => exact hg.spawn rfl trivial
  | quiet hn hq => exact hg.quiet hn s.limiter hq.acquires (hq.knows hg.heap (hg.knows _ _ hn))
  | early hn => exact hg.giveUp hn rfl s.limiter
  | full hn => exact hg.giveUp hn rfl s.limiter
  | reserve hn hfind =>
    have hslot := hg.knows _ _ hn
    exact hg.quiet hn _ (.keep fun _ hx => hx) ⟨hslot, hg.heap.slotFind_none hslot hfind⟩
  | buildFailed hn => exact hg.giveUp hn rfl _
  | firstFailed hn => exact hg.giveUp hn rfl s.limiter
  | @publish n a against ref? box box' fin voted hn =>
    obtain ⟨hslot, hno, -⟩ := hg.knows _ _ hn
    have hmade : (s.heap.publish ref? a.id a.hash box' fin).IsFor (s.heap.slotRef ref?) a.id ∧
        (s.heap.publish ref? a.id a.hash box' fin).IsBox s.heap.voteBox.length a.id a.hash :=
      ⟨Heap.isFor_publish_slot hslot, Heap.isBox_publish.mpr (.inr ⟨rfl, rfl, rfl⟩)⟩
    refine Guarded.spawn (s := ⟨s.heap.publish ref? a.id a.hash box' fin, _, s.threads.set n _⟩) ?_ rfl hmade
    exact hg.move hn _ hg.acquires_publish (hg.heap.publish hslot hno) hmade
      fun m u hne hm => hg.knows_publish hn rfl hno hne hm
  | vote hn =>
    refine hg.move hn _ (.keep fun _ hx => hx) hg.heap.write ?_ fun m u _ hm => (hg.knows m u hm).write hg.heap
    exact (hg.knows _ _ hn).write hg.heap
  | expire hn =>
    refine hg.move hn _ (.keep fun _ hx => hx) hg.heap.write ?_ fun m u _ hm => (hg.knows m u hm).write hg.heap
    exact (hg.knows _ _ hn).write hg.heap

/-- **What the locks guard, in every interleaving.** -/
theorem guarded (hr : Lts.Reach (system dep cfg policy) Lts.Free s) : Guarded dep cfg policy s := by
  refine hr.invariant _ ?_ fun s e s' _ hg _ hs => hg.step (step_inv hs)
  rintro s rfl
  exact ⟨.empty, .nil, fun n t hn => by cases hn⟩

end Invariant

end Locks

end TeeProxy.Voting
