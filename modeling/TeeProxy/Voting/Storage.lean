/-
The voting storage (`Storage` of `voting.go`) as a transition system.

Rounds are heap objects: the cyclic buffer holds pointers into `rounds`, and a
round that left the buffer is still voted on by the calls that found it and
still ended by its boxes' goroutines. A call of `AddVote` is two steps, the
checks and the lookup of its round (`addVote`) and its critical section
(`castVote`); `scheduleEnd` is one step at any moment, so the runs here
include every order of the real timers. Who has left a critical section with
actions to hand over waits as a `Sender`; a send on `Out` is a step of its
own (`send`), and a cancelled context makes a sender give up (`cancel`).
`accepted` is history: the votes recorded so far, in order.
-/
import TeeProxy.Voting.Round
import TeeProxy.Lib.Lts

namespace TeeProxy.Voting

open GoTime (Time Duration)

/-- go-flare-common's `storage.Cyclic`, holding pointers: an ID goes into the
slot `ID % size` and displaces what was there. -/
structure CyclicPkg where
  Cyclic : Type
  size : Cyclic → Nat
  new : Nat → Cyclic
  get : Cyclic → UInt32 → Option Nat
  store : Cyclic → UInt32 → Nat → Cyclic
  size_new : ∀ n, size (new n) = n
  size_store : ∀ c k v, size (store c k v) = size c
  get_new : ∀ n k, get (new n) k = none
  get_store : ∀ c k v k', get (store c k v) k' =
    if k' = k then some v else if k'.toNat % size c = k.toNat % size c then none else get c k'

/-- A table of slots, each with the ID it was stored under. -/
def CyclicPkg.slots : CyclicPkg where
  Cyclic := Nat × GoMap Nat (UInt32 × Nat)
  size c := c.1
  new n := (n, ∅)
  get c k := (c.2.get? (k.toNat % c.1)).bind fun e => if e.1 = k then some e.2 else none
  store c k v := (c.1, c.2.set (k.toNat % c.1) (k, v))
  size_new _ := rfl
  size_store _ _ _ := rfl
  get_new _ _ := rfl
  get_store c k v k' := by
    by_cases hk : k' = k
    · subst hk; simp
    · by_cases hs : k'.toNat % c.1 = k.toNat % c.1
      · simp [hk, hs, Ne.symm hk]
      · simp [hk, hs, GoMap.get?_set_ne]

/-- `Storage`: the buffer of epochs, and all rounds ever stored. -/
structure Storage (cyc : CyclicPkg) where
  cyclic : cyc.Cyclic
  rounds : List Round
  currentEpoch : UInt32
  maxConsensusEpoch : UInt32

/-- Where a box is: its round, its instruction ID, its hash. -/
@[ext] structure Key where
  round : Nat
  id : Hash
  hash : Hash
  deriving DecidableEq, Repr

namespace Storage

variable {cyc : CyclicPkg}

def new (cyc : CyclicPkg) (cfg : Config) : Storage cyc := ⟨cyc.new cfg.historySize, [], 0, 0⟩

/-- `StoreNewRound`: an epoch that is there is not stored again. -/
def storeNewRound (cfg : Config) (s : Storage cyc) (policy : SigningPolicy) : Storage cyc :=
  if (cyc.get s.cyclic policy.rewardEpochID).isSome then s
  else { s with
    cyclic := cyc.store s.cyclic policy.rewardEpochID s.rounds.length
    rounds := s.rounds ++ [createRound policy cfg.maxPendingRequests cfg.collectVoters]
    currentEpoch := if policy.rewardEpochID > s.currentEpoch then policy.rewardEpochID else s.currentEpoch }

def recordConsensusEpoch (s : Storage cyc) (epoch : UInt32) : Storage cyc :=
  if epoch ≤ s.maxConsensusEpoch then s else { s with maxConsensusEpoch := epoch }

def box? (s : Storage cyc) (k : Key) : Option VoteBox := s.rounds[k.round]?.bind (·.box? k.id k.hash)

section AddVote

variable (dep : Deps) (cfg : Config)

/-- `AddVote` up to its critical section: the round and the hash. -/
def lookup (s : Storage cyc) (call : Call) : Except VoteErr (Nat × Hash) :=
  match checkSize dep.op call.data cfg.maxProviderVote with
  | .error e => .error (.size e)
  | .ok () => match dep.instruction.hashFixed call.data.toDataFixed with
    | .error e => .error (.hashFixed e)
    | .ok hash => match cyc.get s.cyclic call.data.rewardEpochID with
      | none => .error (.noRound call.data.rewardEpochID)
      | some i => match call.metadata.checkConsistency call.data call.signer with
        | .error e => .error (.inconsistentData e)
        | .ok () => .ok (i, hash)

/-- The critical section on the `i`-th round and the metrics after it. -/
def vote (s : Storage cyc) (i : Nat) (hash : Hash) (call : Call) (clock : Clock) :
    Option (Storage cyc × Except VoteErr Voted) :=
  match s.rounds[i]? with
  | none => none
  | some r => match r.castVote dep cfg hash call clock with
    | (r', .error e) => some ({ s with rounds := s.rounds.set i r' }, .error e)
    | (r', .ok voted) =>
      let s' := { s with rounds := s.rounds.set i (r'.recordMetrics cfg call.signer voted) }
      some (if voted.reached then s'.recordConsensusEpoch call.data.rewardEpochID else s', .ok voted)

/-- `AddVote` up to the send, with nothing between its two parts. -/
def addVote (s : Storage cyc) (call : Call) (clock : Clock) : Option (Storage cyc × Except VoteErr Voted) :=
  match s.lookup dep cfg call with
  | .error e => some (s, .error e)
  | .ok (i, hash) => s.vote dep cfg i hash call clock

end AddVote

end Storage

/-! ## The system -/

/-- An `AddVote` call that has found its round. -/
structure Entered where
  round : Nat
  hash : Hash
  call : Call

/-- A goroutine with actions of one box to send, in order. -/
structure Sender where
  key : Key
  actions : List Action

/-- An action on `Out`, and the box it came from. -/
structure Emission where
  key : Key
  action : Action
  deriving DecidableEq, Repr

/-- A recorded vote. -/
structure Accepted where
  round : Nat
  hash : Hash
  call : Call
  time : Time
  reached : Bool

/-- The box a recorded vote is in. -/
def Accepted.key (v : Accepted) : Key := ⟨v.round, v.call.data.instructionID, v.hash⟩

/-- The storage, the votes and senders on their way, what was sent, and the
votes recorded. -/
structure State (cyc : CyclicPkg) where
  storage : Storage cyc
  entered : List Entered
  senders : List Sender
  out : List Emission
  accepted : List Accepted

/-- A policy, a vote and its casting, the end of a box, or a send on the
channel. -/
inductive Event
  | storeNewRound (policy : SigningPolicy)
  | addVote (call : Call)
  | castVote (n : Nat) (clock : Clock)
  | scheduleEnd (k : Key)
  | send (n : Nat)
  | cancel (n : Nat)

section System

variable (dep : Deps) (cyc : CyclicPkg) (cfg : Config)

/-- `AddVote` looks its round up before it casts the vote. -/
def step (s : State cyc) : Event → Option (State cyc)
  | .storeNewRound policy => some { s with storage := s.storage.storeNewRound cfg policy }
  | .addVote call =>
    match s.storage.lookup dep cfg call with
    | .error _ => some s
    | .ok (round, hash) => some { s with entered := s.entered ++ [⟨round, hash, call⟩] }
  | .castVote n clock =>
    match s.entered[n]? with
    | none => none
    | some c =>
      match s.storage.vote dep cfg c.round c.hash c.call clock with
      | none => none
      | some (storage, .error _) => some { s with storage, entered := s.entered.eraseIdx n }
      | some (storage, .ok voted) =>
        let v : Accepted := ⟨c.round, c.hash, c.call, clock.vote, voted.reached⟩
        some { s with
          storage
          entered := s.entered.eraseIdx n
          senders := s.senders ++ [⟨v.key, voted.actionToSend.toList⟩]
          accepted := s.accepted ++ [v] }
  | .scheduleEnd k =>
    match s.storage.rounds[k.round]? with
    | none => none
    | some r => match r.box? k.id k.hash with
      | none => none
      | some box =>
        if box.deleted then none
        else
          let (r', actions) := r.endBox dep k.id k.hash box
          some { s with
            storage := { s.storage with rounds := s.storage.rounds.set k.round r' }
            senders := s.senders ++ [⟨k, actions⟩] }
  | .send n =>
    match s.senders[n]? with
    | some ⟨key, a :: actions⟩ =>
      some { s with senders := s.senders.set n ⟨key, actions⟩, out := s.out ++ [⟨key, a⟩] }
    | _ => none
  | .cancel n =>
    match s.senders[n]? with
    | some ⟨key, _⟩ => some { s with senders := s.senders.set n ⟨key, []⟩ }
    | none => none

def start : State cyc := ⟨.new cyc cfg, [], [], [], []⟩

def system : Lts.System (State cyc) Event where
  init s := s = start cyc cfg
  step := step dep cyc cfg

end System

/-! ## What a step can do -/

section Inversion

variable {dep : Deps} {cyc : CyclicPkg} {cfg : Config}

/-- A call past its checks. -/
structure Checked (dep : Deps) (cfg : Config) (c : Entered) : Prop where
  size : checkSize dep.op c.call.data cfg.maxProviderVote = .ok ()
  hash : dep.instruction.hashFixed c.call.data.toDataFixed = .ok c.hash

theorem Storage.lookup_ok {s : Storage cyc} {call : Call} {i : Nat} {hash : Hash}
    (h : s.lookup dep cfg call = .ok (i, hash)) :
    Checked dep cfg ⟨i, hash, call⟩ ∧ cyc.get s.cyclic call.data.rewardEpochID = some i := by
  unfold Storage.lookup at h
  split at h
  · cases h
  next hsize =>
  split at h
  · cases h
  next hhash =>
  split at h
  · cases h
  next hget =>
  split at h
  · cases h
  simp only [Except.ok.injEq, Prod.mk.injEq] at h
  obtain ⟨rfl, rfl⟩ := h
  exact ⟨⟨hsize, hhash⟩, hget⟩

theorem Storage.vote_error {s s' : Storage cyc} {i : Nat} {hash : Hash} {call : Call} {clock : Clock} {e : VoteErr}
    (h : s.vote dep cfg i hash call clock = some (s', .error e)) :
    ∃ r r', s.rounds[i]? = some r ∧ r.castVote dep cfg hash call clock = (r', .error e) ∧
      s' = { s with rounds := s.rounds.set i r' } := by
  unfold Storage.vote at h
  split at h
  · cases h
  next r hr =>
  split at h
  next r' e' hc =>
    simp only [Option.some.injEq, Prod.mk.injEq, Except.error.injEq] at h
    obtain ⟨rfl, rfl⟩ := h
    exact ⟨r, r', hr, hc, rfl⟩
  next => cases h

theorem Storage.vote_ok {s s' : Storage cyc} {i : Nat} {hash : Hash} {call : Call} {clock : Clock} {voted : Voted}
    (h : s.vote dep cfg i hash call clock = some (s', .ok voted)) :
    ∃ r r' r'', s.rounds[i]? = some r ∧ r.castVote dep cfg hash call clock = (r', .ok voted) ∧ Round.SameVoting r' r'' ∧
      s'.cyclic = s.cyclic ∧ s'.rounds = s.rounds.set i r'' := by
  unfold Storage.vote at h
  split at h
  · cases h
  next r hr =>
  split at h
  next => cases h
  next r' voted' hc =>
    simp only [Option.some.injEq, Prod.mk.injEq, Except.ok.injEq] at h
    obtain ⟨rfl, rfl⟩ := h
    refine ⟨r, r', _, hr, hc, r'.sameVoting_recordMetrics cfg call.signer voted', ?_⟩
    unfold Storage.recordConsensusEpoch
    repeat' split
    all_goals exact ⟨rfl, rfl⟩

/-- **Everything a step can do.** -/
inductive Step (dep : Deps) (cfg : Config) (s : State cyc) : Event → State cyc → Prop
  | known {policy} : (cyc.get s.storage.cyclic policy.rewardEpochID).isSome → Step dep cfg s (.storeNewRound policy) s
  | stored {policy storage} : storage.rounds =
        s.storage.rounds ++ [createRound policy cfg.maxPendingRequests cfg.collectVoters] →
      storage.cyclic = cyc.store s.storage.cyclic policy.rewardEpochID s.storage.rounds.length →
      Step dep cfg s (.storeNewRound policy) { s with storage }
  | turnedAway {call} : Step dep cfg s (.addVote call) s
  | entered {call i hash} : Checked dep cfg ⟨i, hash, call⟩ →
      cyc.get s.storage.cyclic call.data.rewardEpochID = some i →
      Step dep cfg s (.addVote call) { s with entered := s.entered ++ [⟨i, hash, call⟩] }
  | refused {n clock c r r' e} : s.entered[n]? = some c → s.storage.rounds[c.round]? = some r →
      r.castVote dep cfg c.hash c.call clock = (r', .error e) →
      Step dep cfg s (.castVote n clock) { s with
        storage := { s.storage with rounds := s.storage.rounds.set c.round r' }
        entered := s.entered.eraseIdx n }
  | voted {n clock c r r' r'' voted storage} : s.entered[n]? = some c → s.storage.rounds[c.round]? = some r →
      r.castVote dep cfg c.hash c.call clock = (r', .ok voted) → Round.SameVoting r' r'' →
      storage.cyclic = s.storage.cyclic → storage.rounds = s.storage.rounds.set c.round r'' →
      Step dep cfg s (.castVote n clock) { s with
        storage
        entered := s.entered.eraseIdx n
        senders := s.senders ++ [⟨⟨c.round, c.call.data.instructionID, c.hash⟩, voted.actionToSend.toList⟩]
        accepted := s.accepted ++ [⟨c.round, c.hash, c.call, clock.vote, voted.reached⟩] }
  | ended {k r box} : s.storage.rounds[k.round]? = some r → r.box? k.id k.hash = some box → box.deleted = false →
      Step dep cfg s (.scheduleEnd k) { s with
        storage := { s.storage with rounds := s.storage.rounds.set k.round (r.setBox k.id k.hash box.delete) }
        senders := s.senders ++ [⟨k, box.endActions dep (r.finalizedHash k.id)⟩] }
  | sent {n key a actions} : s.senders[n]? = some ⟨key, a :: actions⟩ →
      Step dep cfg s (.send n) { s with
        senders := s.senders.set n ⟨key, actions⟩
        out := s.out ++ [⟨key, a⟩] }
  | cancelled {n key actions} : s.senders[n]? = some ⟨key, actions⟩ →
      Step dep cfg s (.cancel n) { s with senders := s.senders.set n ⟨key, []⟩ }

theorem step_inv {s s' : State cyc} {e : Event} (h : step dep cyc cfg s e = some s') : Step dep cfg s e s' := by
  cases e with
  | storeNewRound policy =>
    simp only [step, Option.some.injEq] at h
    subst h
    by_cases hk : (cyc.get s.storage.cyclic policy.rewardEpochID).isSome
    · rw [Storage.storeNewRound, if_pos hk]; exact .known hk
    · rw [Storage.storeNewRound, if_neg hk]; exact .stored rfl rfl
  | addVote call =>
    simp only [step] at h
    split at h
    · cases h; exact .turnedAway
    next i hash hl =>
      cases h
      exact .entered (Storage.lookup_ok hl).1 (Storage.lookup_ok hl).2
  | castVote n clock =>
    simp only [step] at h
    split at h
    · cases h
    next c hc =>
    split at h
    · cases h
    next storage e hv =>
      cases h
      obtain ⟨r, r', hr, hcast, rfl⟩ := Storage.vote_error hv
      exact .refused hc hr hcast
    next storage voted hv =>
      cases h
      obtain ⟨r, r', r'', hr, hcast, hm, hcyc, hrs⟩ := Storage.vote_ok hv
      exact .voted hc hr hcast hm hcyc hrs
  | scheduleEnd k =>
    simp only [step] at h
    split at h
    · cases h
    next r hr =>
    split at h
    · cases h
    next box hb =>
    split at h
    · cases h
    next hd =>
      cases h
      exact .ended hr hb (by simpa using hd)
  | send n =>
    simp only [step] at h
    split at h
    next key a actions hn => cases h; exact .sent hn
    next => cases h
  | cancel n =>
    simp only [step] at h
    split at h
    next key actions hn => cases h; exact .cancelled hn
    next => cases h

end Inversion

/-! ## Rounds along a run -/

section Rules

variable {dep : Deps} {cyc : CyclicPkg} {cfg : Config} {ok : State cyc → Event → Prop}

/-- Every call in its critical section passed its checks; what the run
requires of calls holds of it. -/
theorem checked_of_entered {Q : Call → Prop} (hok : ∀ s call, ok s (.addVote call) → Q call) {s : State cyc}
    (h : Lts.Reach (system dep cyc cfg) ok s) : ∀ c ∈ s.entered, Checked dep cfg c ∧ Q c.call := by
  refine h.invariant (fun s => ∀ c ∈ s.entered, Checked dep cfg c ∧ Q c.call) ?_ ?_
  · rintro s rfl c hc
    cases hc
  · intro s e s' _ ih he hs c hc
    cases step_inv hs with
    | known | stored | turnedAway | ended | sent | cancelled => exact ih c hc
    | entered hchecked _ =>
      rcases List.mem_append.mp hc with hc | hc
      · exact ih c hc
      · cases List.mem_singleton.mp hc
        exact ⟨hchecked, hok _ _ he⟩
    | refused | voted => exact ih c (List.mem_of_mem_eraseIdx hc)

/-- **The rule for rounds.** A property of a round that holds when it is
created, and that critical sections and ends of boxes keep, holds of every
round in every state. -/
theorem round_invariant {Q : Call → Prop} (hok : ∀ s call, ok s (.addVote call) → Q call) (I : Round → Prop)
    (create : ∀ policy, I (createRound policy cfg.maxPendingRequests cfg.collectVoters))
    (metrics : ∀ r r', Round.SameVoting r r' → I r → I r')
    (cast : ∀ s n c clock r r' res, ok s (.castVote n clock) → s.entered[n]? = some c →
      s.storage.rounds[c.round]? = some r → Checked dep cfg c → Q c.call → I r →
      r.castVote dep cfg c.hash c.call clock = (r', res) → I r')
    (ends : ∀ r id hash box, I r → r.box? id hash = some box → box.deleted = false →
      I (r.setBox id hash box.delete))
    {s : State cyc} (h : Lts.Reach (system dep cyc cfg) ok s) : ∀ r ∈ s.storage.rounds, I r := by
  refine h.invariant (fun s => ∀ r ∈ s.storage.rounds, I r) ?_ ?_
  · rintro s rfl r hr
    cases hr
  · intro s e s' hreach ih he hs r hr
    cases step_inv hs with
    | known | turnedAway | entered | sent | cancelled => exact ih r hr
    | stored hrs _ =>
      rw [hrs] at hr
      rcases List.mem_append.mp hr with hr | hr
      · exact ih r hr
      · cases List.mem_singleton.mp hr; exact create _
    | refused hn hr₀ hcast =>
      rcases List.mem_or_eq_of_mem_set hr with hr | rfl
      · exact ih r hr
      · have hq := checked_of_entered hok hreach _ (List.mem_of_getElem? hn)
        exact cast _ _ _ _ _ _ _ he hn hr₀ hq.1 hq.2 (ih _ (List.mem_of_getElem? hr₀)) hcast
    | voted hn hr₀ hcast hm _ hrs =>
      rw [hrs] at hr
      rcases List.mem_or_eq_of_mem_set hr with hr | rfl
      · exact ih r hr
      · have hq := checked_of_entered hok hreach _ (List.mem_of_getElem? hn)
        exact metrics _ _ hm
          (cast _ _ _ _ _ _ _ he hn hr₀ hq.1 hq.2 (ih _ (List.mem_of_getElem? hr₀)) hcast)
    | ended hr₀ hb hd =>
      rcases List.mem_or_eq_of_mem_set hr with hr | rfl
      · exact ih r hr
      · exact ends _ _ _ _ (ih _ (List.mem_of_getElem? hr₀)) hb hd

end Rules

/-! ## A small storage

Packages, a configuration and calls simple enough to evaluate: a box of an
instruction stamped `t` has the hash `t + 1`. -/

/-- Numbered operations and stamped forms. -/
def plainDeps : Deps := ⟨.numbered, .stamped⟩

/-- Boxes of a minute, two per proposer, three epochs. -/
def plainConfig : Config := ⟨60 * GoTime.second, 2, 0, 3, true⟩

/-- Two voters of weight two, who have to agree. -/
def twoVoters (epoch : UInt32) : SigningPolicy :=
  ⟨epoch, 3, .ofMap (((∅ : GoMap Address UInt16).set 1 2).set 2 2)⟩

def plainCall (epoch : UInt32) (id : Hash) (timestamp : UInt64) (signer : Address) (signature : Bytes) : Call where
  data := ⟨⟨id, 0, timestamp, epoch, 0, 0, [], 0, [], []⟩, []⟩
  signer
  signature
  metadata := Meta.new .numbered .blank .empty 0

/-- Every reading of the clock is `n` seconds after 1970. -/
def clockAt (n : Int) : Clock :=
  let t : Time := ⟨GoTime.unixToInternal + n, 0, some (n * GoTime.second)⟩
  ⟨t, t, t⟩

end TeeProxy.Voting
