/-
The participation metrics of the voting storage: what `AddVote` records after
its critical section (`markProviderVoter`, `recordVotingWeight` and
`markProposer` of `round.go`, `recordConsensusEpoch` of `voting.go`).

Rounds are the lock-level systems of `Locks`, one for each object the storage
has made. A call whose vote was taken goes on to record, one step at a time
and with any other call in between; the epoch is raised by a loop of load and
compare-and-swap. When no call is under way the metrics are those of the
boxes (`participation_agrees`): everything recorded comes from an accepted
vote, every accepted vote has been recorded, and votes and boxes agree
(`Locks.traced`).
-/
import TeeProxy.Lib.Watermark
import TeeProxy.Voting.Storage
import TeeProxy.Voting.Traced

namespace TeeProxy.Voting.Participation

/-! ## The system -/

/-- Where a call of `AddVote` is after its vote was taken: before marking the
provider, recording the weight, marking the proposer, loading the epoch,
putting its own in the place of the one it loaded, and sending its action; or
returned. -/
inductive Recording
  | voter | weight | proposer | load
  | swap (old : UInt32)
  | sending | returned
  deriving DecidableEq, Repr

/-- A round at run time: its goroutines, boxes and limiter, and where its
calls are by their numbers. -/
structure Section where
  voting : Locks.State
  recording : GoMap Nat Recording

/-- How far a recorded vote is in the metrics. -/
def Section.stage (sec : Section) (n : Nat) : Recording := (sec.recording.get? n).getD .voter

/-- `sections` are those of the round objects of the storage, by number; of
these objects only the policy and the metrics are used. -/
structure State (cyc : CyclicPkg) where
  storage : Storage cyc
  sections : List Section

/-- A policy is stored; a call looks up its round and starts; a goroutine of
the `i`-th round goes on; call `n` of that round, with its receipt, does. -/
inductive Event
  | storeNewRound (policy : SigningPolicy)
  | addVote (call : Call) (clock : Clock)
  | round (i : Nat) (e : Locks.Event)
  | record (i n : Nat)

section System

variable (dep : Deps) (cyc : CyclicPkg) (cfg : Config)

/-- The next step of a call whose vote was taken: what becomes of its round
and of `maxConsensusEpoch`, and where it is then. A send goes through at any
time; the context is not cancelled. -/
def advance (r : Round) (maxConsensusEpoch : UInt32) (a : Arg) (voted : Voted) :
    Recording → Option (Round × UInt32 × Recording)
  | .voter =>
    if cfg.collectVoters && voted.isProvider then some (r.markProviderVoter a.call.signer, maxConsensusEpoch, .weight)
    else some (r, maxConsensusEpoch, .proposer)
  | .weight => some (r.recordVotingWeight voted.votedWeight, maxConsensusEpoch, .proposer)
  | .proposer =>
    some (if cfg.collectVoters && voted.startedBox then r.markProposer a.call.signer else r, maxConsensusEpoch, .load)
  -- the loop of recordConsensusEpoch, only if the threshold was reached
  | .load =>
    if voted.reached && a.call.data.rewardEpochID > maxConsensusEpoch then
      some (r, maxConsensusEpoch, .swap maxConsensusEpoch)
    else some (r, maxConsensusEpoch, .sending)
  | .swap old =>
    if maxConsensusEpoch = old then some (r, a.call.data.rewardEpochID, .sending)
    else some (r, maxConsensusEpoch, .load)
  | .sending => some (r, maxConsensusEpoch, .returned)
  | .returned => none

/-- The events of a round but the start of a call, which has to find the
round first, and the cancellation of a context. -/
def inside : Locks.Event → Bool
  | .statuses _ | .run _ | .pick _ _ => true
  | .addVote _ | .cancel _ => false

variable {cyc} in
/-- An event of the `i`-th round. -/
def stepRound (s : State cyc) (i : Nat) (e : Locks.Event) : Option (State cyc) :=
  match s.sections[i]?, s.storage.rounds[i]? with
  | some sec, some r => (Locks.step dep cfg r.policy sec.voting e).map fun voting =>
      { s with sections := s.sections.set i { sec with voting } }
  | _, _ => none

/-- A round is stored, a goroutine of a round takes a step, or a vote that has
returned is recorded a stage further. -/
def step (s : State cyc) : Event → Option (State cyc)
  | .storeNewRound policy => some {
      storage := s.storage.storeNewRound cfg policy
      sections := if (cyc.get s.storage.cyclic policy.rewardEpochID).isSome then s.sections
        else s.sections ++ [⟨Locks.start cfg policy, ∅⟩] }
  | .addVote call clock => match s.storage.lookup dep cfg call with
    | .error _ => some s
    | .ok (i, hash) => stepRound dep cfg s i (.addVote ⟨hash, call, clock⟩)
  | .round i e => if inside e then stepRound dep cfg s i e else none
  | .record i n => match s.sections[i]?, s.storage.rounds[i]? with
    | some sec, some r => match sec.voting.threads[n]? with
      | some (.addVote a _ (.returned (.ok voted))) =>
        (advance cfg r s.storage.maxConsensusEpoch a voted (sec.stage n)).map fun next => {
          storage := { s.storage with rounds := s.storage.rounds.set i next.1, maxConsensusEpoch := next.2.1 }
          sections := s.sections.set i { sec with recording := sec.recording.set n next.2.2 } }
      | _ => none
    | _, _ => none

def start : State cyc := ⟨.new cyc cfg, []⟩

/-- The rounds with their goroutines and metrics. -/
def system : Lts.System (State cyc) Event where
  init s := s = start cyc cfg
  step := step dep cyc cfg

/-- The weights of the policies that are stored fit in 16 bits. -/
def Light (_ : State cyc) : Event → Prop
  | .storeNewRound policy => policy.weightSum ≤ 65535
  | _ => True

instance (s : State cyc) (e : Event) : Decidable (Light cyc s e) :=
  match e with
  | .storeNewRound policy => inferInstanceAs (Decidable (policy.weightSum ≤ 65535))
  | .addVote .. | .round .. | .record .. => isTrue trivial

end System

/-! ## What a step does -/

/-- A call that recorded something, or went on: its stage before, the round,
the epoch and its stage after. Voters are collected. -/
inductive Advanced (r : Round) (epoch : UInt32) (a : Arg) (voted : Voted) :
    Recording → Round → UInt32 → Recording → Prop
  | marked : voted.isProvider = true →
      Advanced r epoch a voted .voter (r.markProviderVoter a.call.signer) epoch .weight
  | cosigner : voted.isProvider = false → Advanced r epoch a voted .voter r epoch .proposer
  | weighed : Advanced r epoch a voted .weight (r.recordVotingWeight voted.votedWeight) epoch .proposer
  | proposed : voted.startedBox = true →
      Advanced r epoch a voted .proposer (r.markProposer a.call.signer) epoch .load
  | joined : voted.startedBox = false → Advanced r epoch a voted .proposer r epoch .load
  | loaded : voted.reached = true → epoch < a.call.data.rewardEpochID →
      Advanced r epoch a voted .load r epoch (.swap epoch)
  | settled : (voted.reached = true → a.call.data.rewardEpochID ≤ epoch) →
      Advanced r epoch a voted .load r epoch .sending
  | swapped : Advanced r epoch a voted (.swap epoch) r a.call.data.rewardEpochID .sending
  | missed {old} : Advanced r epoch a voted (.swap old) r epoch .load
  | sent : Advanced r epoch a voted .sending r epoch .returned

/-- The call with number `n` has its receipt. -/
def Section.Has (sec : Section) (n : Nat) (a : Arg) (voted : Voted) : Prop :=
  ∃ against, sec.voting.threads[n]? = some (.addVote a against (.returned (.ok voted)))

inductive Step (dep : Deps) {cyc : CyclicPkg} (cfg : Config) (s : State cyc) : Event → State cyc → Prop
  | same {e} : Step dep cfg s e s
  | stored {policy} : Step dep cfg s (.storeNewRound policy) {
      storage := { s.storage with
        cyclic := cyc.store s.storage.cyclic policy.rewardEpochID s.storage.rounds.length
        rounds := s.storage.rounds ++ [createRound policy cfg.maxPendingRequests cfg.collectVoters]
        currentEpoch := if policy.rewardEpochID > s.storage.currentEpoch then policy.rewardEpochID
          else s.storage.currentEpoch }
      sections := s.sections ++ [⟨Locks.start cfg policy, ∅⟩] }
  | moved {e i sec r e' voting} : s.sections[i]? = some sec → s.storage.rounds[i]? = some r →
      Locks.step dep cfg r.policy sec.voting e' = some voting →
      (∀ a, e' = .addVote a → cyc.get s.storage.cyclic a.call.data.rewardEpochID = some i) →
      Step dep cfg s e { s with sections := s.sections.set i { sec with voting } }
  | recorded {i n sec r a voted r' epoch next} : s.sections[i]? = some sec → s.storage.rounds[i]? = some r →
      sec.Has n a voted → Advanced r s.storage.maxConsensusEpoch a voted (sec.stage n) r' epoch next →
      Step dep cfg s (.record i n) {
        storage := { s.storage with rounds := s.storage.rounds.set i r', maxConsensusEpoch := epoch }
        sections := s.sections.set i { sec with recording := sec.recording.set n next } }

section Inversion

variable {dep : Deps} {cyc : CyclicPkg} {cfg : Config} {s s' : State cyc}

theorem advance_inv {r r' : Round} {epoch epoch' : UInt32} {a : Arg} {voted : Voted} {stage next : Recording}
    (hcollect : cfg.collectVoters = true) (h : advance cfg r epoch a voted stage = some (r', epoch', next)) :
    Advanced r epoch a voted stage r' epoch' next := by
  cases stage with
  | voter =>
    simp only [advance, hcollect, Bool.true_and] at h
    split at h <;> cases h
    next hp => exact .marked hp
    next hp => exact .cosigner (Bool.eq_false_iff.mpr hp)
  | weight =>
    cases h
    exact .weighed
  | proposer =>
    simp only [advance, hcollect, Bool.true_and] at h
    cases h
    split
    next hs => exact .proposed hs
    next hs => exact .joined (Bool.eq_false_iff.mpr hs)
  | load =>
    simp only [advance, Bool.and_eq_true, decide_eq_true_eq] at h
    split at h <;> cases h
    next hgt => exact .loaded hgt.1 hgt.2
    next hle => exact .settled fun hreached => UInt32.not_lt.mp fun hlt => hle ⟨hreached, hlt⟩
  | swap old =>
    simp only [advance] at h
    split at h <;> cases h
    next heq => exact heq ▸ .swapped
    next => exact .missed
  | sending =>
    cases h
    exact .sent
  | returned => cases h

theorem stepRound_inv {i : Nat} {e : Event} {e' : Locks.Event} (h : stepRound dep cfg s i e' = some s')
    (hcall : ∀ a, e' = .addVote a → cyc.get s.storage.cyclic a.call.data.rewardEpochID = some i) :
    Step dep cfg s e s' := by
  unfold stepRound at h
  split at h
  next hsec hr =>
    obtain ⟨voting, hv, rfl⟩ := Option.map_eq_some_iff.mp h
    exact .moved hsec hr hv hcall
  next => cases h

theorem step_inv {e : Event} (hcollect : cfg.collectVoters = true) (h : step dep cyc cfg s e = some s') :
    Step dep cfg s e s' := by
  cases e with
  | storeNewRound policy =>
    cases h
    unfold Storage.storeNewRound
    split
    · exact .same
    · exact .stored
  | addVote call clock =>
    simp only [step] at h
    split at h
    · cases h
      exact .same
    next i hash hlook =>
      refine stepRound_inv h ?_
      rintro a ⟨⟩
      exact (Storage.lookup_ok hlook).2
  | round i e =>
    simp only [step] at h
    split at h
    next hin =>
      refine stepRound_inv h ?_
      rintro a rfl
      cases hin
    next => cases h
  | record i n =>
    simp only [step] at h
    split at h
    next sec r hsec hr =>
      split at h
      next a against voted hn =>
        obtain ⟨⟨r', epoch, next⟩, hadv, rfl⟩ := Option.map_eq_some_iff.mp h
        exact .recorded hsec hr ⟨against, hn⟩ (advance_inv hcollect hadv)
      next => cases h
    next => cases h

end Inversion

/-! ## What a state has recorded -/

section Records

variable {cyc : CyclicPkg}

/-- How much of its vote a call has recorded. -/
@[simp] def Recording.rank : Recording → Nat
  | .voter => 0
  | .weight => 1
  | .proposer => 2
  | .load | .swap _ => 3
  | .sending => 4
  | .returned => 5

/-- A vote of a call that has come to a rank. -/
def Section.Past (sec : Section) (k : Nat) (a : Arg) (voted : Voted) : Prop :=
  ∃ n, sec.Has n a voted ∧ k ≤ (sec.stage n).rank

/-- What a call at a stage knows of its vote. -/
def Recording.Fits (a : Arg) (voted : Voted) : Recording → Prop
  | .weight => voted.isProvider = true
  | .swap old => voted.reached = true ∧ old < a.call.data.rewardEpochID
  | _ => True

/-- The values `f` of votes that were recorded, of those that `which` selects. -/
def Recorded {α : Type} (past : Arg → Voted → Prop) (which : Voted → Bool) (f : Arg → Voted → α) (x : α) : Prop :=
  ∃ a voted, past a voted ∧ which voted = true ∧ f a voted = x

/-- The set is there, and has the addresses with `P`. -/
def Marks (m : Option (GoMap Address Unit)) (P : Address → Prop) : Prop :=
  ∃ set, m = some set ∧ ∀ p, p ∈ set.keys ↔ P p

def signerOf (a : Arg) (_ : Voted) : Address := a.call.signer

def weightOf (_ : Arg) (voted : Voted) : Nat := voted.votedWeight.toNat

def epochOf (a : Arg) (_ : Voted) : Nat := a.call.data.rewardEpochID.toNat

/-- The metrics of a round are those of the votes that were recorded. -/
structure Metered (past : Nat → Arg → Voted → Prop) (r : Round) : Prop where
  voters : Marks r.providerVoters (Recorded (past 1) Voted.isProvider signerOf)
  weight : Watermark (Recorded (past 2) Voted.isProvider weightOf) r.maxVotingWeight.toNat
  proposers : Marks r.proposers (Recorded (past 3) Voted.startedBox signerOf)

/-- A round's goroutines run as in `Locks`, and its metrics are those of its
votes. -/
structure SectionOK (dep : Deps) (cfg : Config) (sec : Section) (r : Round) : Prop where
  light : r.policy.weightSum ≤ 65535
  reach : Lts.Reach (Locks.system dep cfg r.policy) Lts.Free sec.voting
  epoch : ∀ t ∈ sec.voting.threads, ∀ a, t.vote? = some a → a.call.data.rewardEpochID = r.policy.rewardEpochID
  begun : ∀ n stage, sec.recording.get? n = some stage → ∃ a voted, sec.Has n a voted ∧ stage.Fits a voted
  metered : Metered sec.Past r

/-- The votes of all rounds that have come to a rank. -/
def PastIn (sections : List Section) (k : Nat) (a : Arg) (voted : Voted) : Prop := ∃ sec ∈ sections, sec.Past k a voted

/-- Every round is in order, and the consensus epoch is the highest that reached
consensus. -/
structure StateOK (dep : Deps) (cfg : Config) (s : State cyc) : Prop where
  length : s.sections.length = s.storage.rounds.length
  resident : ∀ k i, cyc.get s.storage.cyclic k = some i →
    ∃ r, s.storage.rounds[i]? = some r ∧ r.policy.rewardEpochID = k
  sections : ∀ (i : Nat) (sec : Section), s.sections[i]? = some sec →
    ∀ r, s.storage.rounds[i]? = some r → SectionOK dep cfg sec r
  consensus : Watermark (Recorded (PastIn s.sections 4) Voted.reached epochOf) s.storage.maxConsensusEpoch.toNat

end Records

/-! ## Records along a run -/

section Sections

variable {dep : Deps} {cfg : Config} {policy : SigningPolicy} {sec : Section} {voting : Locks.State} {n k : Nat}
  {a a' : Arg} {voted voted' : Voted} {next : Recording}

theorem Section.Has.eq (h : sec.Has n a voted) (h' : sec.Has n a' voted') : a' = a ∧ voted' = voted := by
  obtain ⟨_, h⟩ := h
  obtain ⟨_, h'⟩ := h'
  cases h.symm.trans h'
  exact ⟨rfl, rfl⟩

theorem has_step (hs : Locks.Step dep cfg policy sec.voting voting) (h : sec.Has n a voted) :
    Section.Has { sec with voting } n a voted := by
  obtain ⟨against, h⟩ := h
  exact ⟨against, Locks.returned_step hs h⟩

/-- A call that has its receipt only now has recorded nothing. -/
theorem past_step (hs : Locks.Step dep cfg policy sec.voting voting)
    (hbegun : ∀ n stage, sec.recording.get? n = some stage → ∃ a voted, sec.Has n a voted ∧ stage.Fits a voted)
    (hk : 0 < k) (a : Arg) (voted : Voted) : Section.Past { sec with voting } k a voted ↔ sec.Past k a voted := by
  constructor
  · rintro ⟨n, hn, hrank⟩
    cases hget : sec.recording.get? n with
    | none =>
      simp only [Section.stage, hget, Option.getD_none, Recording.rank] at hrank
      omega
    | some stage =>
      obtain ⟨a', voted', hhas, -⟩ := hbegun n stage hget
      obtain ⟨rfl, rfl⟩ := (has_step hs hhas).eq hn
      exact ⟨n, hhas, hrank⟩
  · rintro ⟨n, hn, hrank⟩
    exact ⟨n, has_step hs hn, hrank⟩

theorem stage_record (m : Nat) : Section.stage { sec with recording := sec.recording.set n next } m =
    if m = n then next else sec.stage m := by
  unfold Section.stage
  rw [GoMap.get?_set]
  split <;> rfl

theorem past_record (hn : sec.Has n a voted) (hle : (sec.stage n).rank ≤ next.rank) (k : Nat) (a' : Arg)
    (voted' : Voted) : Section.Past { sec with recording := sec.recording.set n next } k a' voted' ↔
      sec.Past k a' voted' ∨ k ≤ next.rank ∧ a' = a ∧ voted' = voted := by
  constructor
  · rintro ⟨m, hm, hrank⟩
    rw [stage_record] at hrank
    split at hrank
    next heq =>
      subst heq
      exact .inr ⟨hrank, hn.eq hm⟩
    next => exact .inl ⟨m, hm, hrank⟩
  · rintro (⟨m, hm, hrank⟩ | ⟨hrank, rfl, rfl⟩)
    · refine ⟨m, hm, ?_⟩
      rw [stage_record]
      split
      next heq =>
        subst heq
        exact hrank.trans hle
      next => exact hrank
    · exact ⟨n, hn, by rwa [stage_record, if_pos rfl]⟩

end Sections

section Metrics

variable {α : Type} {P : Prop} {past past' : Arg → Voted → Prop} {which : Voted → Bool} {f : Arg → Voted → α} {a : Arg}
  {voted : Voted} {m : Option (GoMap Address Unit)} {Q Q' : Address → Prop} {q : Address}

theorem recorded_add (hpast : ∀ a' voted', past' a' voted' ↔ past a' voted' ∨ P ∧ a' = a ∧ voted' = voted) (x : α) :
    Recorded past' which f x ↔ Recorded past which f x ∨ P ∧ which voted = true ∧ f a voted = x := by
  constructor
  · rintro ⟨a', voted', hp, hw, hx⟩
    rcases (hpast a' voted').mp hp with hp | ⟨hP, rfl, rfl⟩
    · exact .inl ⟨a', voted', hp, hw, hx⟩
    · exact .inr ⟨hP, hw, hx⟩
  · rintro (⟨a', voted', hp, hw, hx⟩ | ⟨hP, hw, hx⟩)
    · exact ⟨a', voted', (hpast a' voted').mpr (.inl hp), hw, hx⟩
    · exact ⟨a, voted, (hpast a voted).mpr (.inr ⟨hP, rfl, rfl⟩), hw, hx⟩

theorem recorded_same (hpast : ∀ a' voted', past' a' voted' ↔ past a' voted' ∨ P ∧ a' = a ∧ voted' = voted)
    (hsame : P → which voted = true → past a voted) (x : α) : Recorded past' which f x ↔ Recorded past which f x := by
  rw [recorded_add hpast]
  refine or_iff_left_of_imp ?_
  rintro ⟨hP, hw, hx⟩
  exact ⟨a, voted, hsame hP hw, hw, hx⟩

theorem Marks.congr (h : Marks m Q) (hQ : ∀ p, Q' p ↔ Q p) : Marks m Q' := by
  obtain ⟨set, hm, hset⟩ := h
  exact ⟨set, hm, fun p => (hset p).trans (hQ p).symm⟩

theorem Marks.set (h : Marks m Q) (hQ : ∀ p, Q' p ↔ Q p ∨ q = p) : Marks (m.map (·.set q ())) Q' := by
  obtain ⟨set, rfl, hset⟩ := h
  refine ⟨_, rfl, fun p => ?_⟩
  rw [hQ, ← hset, GoMap.mem_keys, GoMap.mem_keys, GoMap.get?_set]
  split
  next heq => simp [heq]
  next hne => simp [Ne.symm hne]

end Metrics

section Advance

variable {past past' : Nat → Arg → Voted → Prop} {r r' : Round} {epoch epoch' : UInt32} {a : Arg} {voted : Voted}
  {stage next : Recording}

theorem Advanced.rank_le (h : Advanced r epoch a voted stage r' epoch' next) : stage.rank ≤ next.rank := by
  cases h <;> simp

theorem Advanced.fits (h : Advanced r epoch a voted stage r' epoch' next) : next.Fits a voted := by
  cases h with
  | marked hp => exact hp
  | loaded hreached hlt => exact ⟨hreached, hlt⟩
  | cosigner | weighed | proposed | joined | settled | swapped | missed | sent => trivial

theorem recordVotingWeight_of_some {pv : GoMap Address Unit} {w : UInt16} (h : r.providerVoters = some pv) :
    r.recordVotingWeight w = { r with maxVotingWeight := max r.maxVotingWeight w } := by
  simp [Round.recordVotingWeight, h]

/-- **What a call records is what its vote adds.** -/
theorem Metered.advance (hm : Metered past r) (h : Advanced r epoch a voted stage r' epoch' next)
    (hpast : ∀ k a' voted', past' k a' voted' ↔ past k a' voted' ∨ k ≤ next.rank ∧ a' = a ∧ voted' = voted)
    (hmine : ∀ k ≤ stage.rank, past k a voted) (hfits : stage.Fits a voted) :
    r'.policy = r.policy ∧ Metered past' r' := by
  have hsame : ∀ {α : Type} {which : Voted → Bool} {f : Arg → Voted → α} (k : Nat),
      (k ≤ next.rank → which voted = true → k ≤ stage.rank) →
      ∀ x, Recorded (past' k) which f x ↔ Recorded (past k) which f x := fun k hk =>
    recorded_same (hpast k) fun hle hw => hmine k (hk hle hw)
  cases h with
  | marked hp =>
    refine ⟨rfl, hm.voters.set fun p => ?_, hm.weight.congr (hsame 2 (by simp)), hm.proposers.congr (hsame 3 (by simp))⟩
    rw [recorded_add (hpast 1)]
    simp [hp, signerOf]
  | cosigner hp =>
    exact ⟨rfl, hm.voters.congr (hsame 1 (by simp [hp])), hm.weight.congr (hsame 2 (by simp [hp])),
      hm.proposers.congr (hsame 3 (by simp))⟩
  | weighed =>
    obtain ⟨pv, hpv, -⟩ := hm.voters
    rw [recordVotingWeight_of_some hpv]
    refine ⟨rfl, hm.voters.congr (hsame 1 (by simp)), ?_, hm.proposers.congr (hsame 3 (by simp))⟩
    rw [UInt16.toNat_max]
    refine hm.weight.raise fun w => ?_
    rw [recorded_add (hpast 2)]
    simp [show voted.isProvider = true from hfits, weightOf, eq_comm]
  | proposed hs =>
    refine ⟨rfl, hm.voters.congr (hsame 1 (by simp)), hm.weight.congr (hsame 2 (by simp)), hm.proposers.set fun p => ?_⟩
    rw [recorded_add (hpast 3)]
    simp [hs, signerOf]
  | joined hs =>
    exact ⟨rfl, hm.voters.congr (hsame 1 (by simp)), hm.weight.congr (hsame 2 (by simp)),
      hm.proposers.congr (hsame 3 (by simp [hs]))⟩
  | loaded | settled | swapped | missed | sent =>
    exact ⟨rfl, hm.voters.congr (hsame 1 (by simp)), hm.weight.congr (hsame 2 (by simp)),
      hm.proposers.congr (hsame 3 (by simp))⟩

theorem consensus_advance {past past' : Arg → Voted → Prop}
    (hw : Watermark (Recorded past Voted.reached epochOf) epoch.toNat)
    (h : Advanced r epoch a voted stage r' epoch' next)
    (hpast : ∀ a' voted', past' a' voted' ↔ past a' voted' ∨ 4 ≤ next.rank ∧ a' = a ∧ voted' = voted)
    (hmine : 4 ≤ stage.rank → past a voted) (hfits : stage.Fits a voted) :
    Watermark (Recorded past' Voted.reached epochOf) epoch'.toNat := by
  cases h with
  | marked | cosigner | weighed | proposed | joined | loaded | missed =>
    exact hw.congr (recorded_same hpast (by simp))
  | sent => exact hw.congr (recorded_same hpast fun _ _ => hmine (by simp))
  | settled hle =>
    refine hw.keep (fun x hx => ?_) fun x hx => (recorded_add hpast x).mpr (.inl hx)
    rcases (recorded_add hpast x).mp hx with hx | ⟨-, hreached, rfl⟩
    · exact .inl hx
    · exact .inr (UInt32.le_iff_toNat_le.mp (hle hreached))
  | swapped =>
    obtain ⟨hreached, hlt⟩ := hfits
    have hmax : max epoch.toNat a.call.data.rewardEpochID.toNat = a.call.data.rewardEpochID.toNat :=
      max_eq_right (UInt32.lt_iff_toNat_lt.mp hlt).le
    rw [← hmax]
    refine hw.raise fun x => ?_
    rw [recorded_add hpast]
    simp [hreached, epochOf, eq_comm]

end Advance

section Runs

variable {dep : Deps} {cyc : CyclicPkg} {cfg : Config} {s s' : State cyc} {sec sec' : Section} {r r' : Round}
  {i n k : Nat} {a : Arg} {voted : Voted} {epoch : UInt32} {next : Recording}

theorem SectionOK.start {policy : SigningPolicy} (hcollect : cfg.collectVoters = true)
    (hlight : policy.weightSum ≤ 65535) :
    SectionOK dep cfg ⟨Locks.start cfg policy, ∅⟩ (createRound policy cfg.maxPendingRequests cfg.collectVoters) := by
  have hnone : ∀ {α : Type} {k : Nat} {which : Voted → Bool} {f : Arg → Voted → α} (x : α),
      ¬ Recorded (Section.Past ⟨Locks.start cfg policy, ∅⟩ k) which f x := by
    rintro α k which f x ⟨a, voted, ⟨n, ⟨against, hn⟩, -⟩, -⟩
    cases hn
  have hmarks : ∀ {Q : Address → Prop}, (∀ p, ¬ Q p) → Marks (if cfg.collectVoters then some ∅ else none) Q := by
    intro Q hQ
    rw [if_pos hcollect]
    refine ⟨∅, rfl, fun p => ?_⟩
    exact iff_of_false (by simp [GoMap.mem_keys]) (hQ p)
  exact {
    light := hlight
    reach := .init rfl
    epoch := fun t ht => by cases ht
    begun := fun n stage h => by cases h
    metered := ⟨hmarks hnone, .bot hnone, hmarks hnone⟩ }

theorem SectionOK.moved {e : Locks.Event} {voting : Locks.State} (hok : SectionOK dep cfg sec r)
    (hs : Locks.step dep cfg r.policy sec.voting e = some voting)
    (hcall : ∀ a, e = .addVote a → a.call.data.rewardEpochID = r.policy.rewardEpochID) :
    SectionOK dep cfg { sec with voting } r where
  light := hok.light
  reach := .step hok.reach trivial hs
  epoch t ht a ha := by
    rcases Locks.call_step hs ht ha with he | ⟨u, hu, hua⟩
    · exact hcall a he
    · exact hok.epoch u hu a hua
  begun n stage hn := by
    obtain ⟨a, voted, hhas, hfits⟩ := hok.begun n stage hn
    exact ⟨a, voted, has_step (Locks.step_inv hs) hhas, hfits⟩
  metered := by
    have hpast : ∀ k, 0 < k → Section.Past { sec with voting } k = sec.Past k := fun k hk =>
      funext fun a => funext fun voted => propext (past_step (Locks.step_inv hs) hok.begun hk a voted)
    refine ⟨?_, ?_, ?_⟩
    · rw [hpast 1 (by decide)]
      exact hok.metered.voters
    · rw [hpast 2 (by decide)]
      exact hok.metered.weight
    · rw [hpast 3 (by decide)]
      exact hok.metered.proposers

theorem SectionOK.fits (hok : SectionOK dep cfg sec r) (hn : sec.Has n a voted) : (sec.stage n).Fits a voted := by
  unfold Section.stage
  cases hget : sec.recording.get? n with
  | none => trivial
  | some stage =>
    obtain ⟨a', voted', hhas, hfits⟩ := hok.begun n stage hget
    obtain ⟨rfl, rfl⟩ := hn.eq hhas
    exact hfits

theorem SectionOK.recorded {epoch' : UInt32} (hok : SectionOK dep cfg sec r) (hn : sec.Has n a voted)
    (hadv : Advanced r epoch a voted (sec.stage n) r' epoch' next) :
    r'.policy = r.policy ∧ SectionOK dep cfg { sec with recording := sec.recording.set n next } r' := by
  obtain ⟨hpolicy, hmetered⟩ :=
    hok.metered.advance hadv (past_record hn hadv.rank_le) (fun k hk => ⟨n, hn, hk⟩) (hok.fits hn)
  refine ⟨hpolicy, ?_, ?_, ?_, fun m stage hm => ?_, hmetered⟩
  · rw [hpolicy]
    exact hok.light
  · rw [hpolicy]
    exact hok.reach
  · rw [hpolicy]
    exact hok.epoch
  · rw [GoMap.get?_set] at hm
    split at hm
    next heq =>
      cases hm
      exact ⟨a, voted, heq ▸ hn, hadv.fits⟩
    next => exact hok.begun m stage hm

theorem pastIn_set {sections : List Section} {X : Arg → Voted → Prop} (hi : sections[i]? = some sec)
    (hsec : ∀ a voted, sec'.Past k a voted ↔ sec.Past k a voted ∨ X a voted) (a : Arg) (voted : Voted) :
    PastIn (sections.set i sec') k a voted ↔ PastIn sections k a voted ∨ X a voted := by
  obtain ⟨hlt, heq⟩ := List.getElem?_eq_some_iff.mp hi
  have hmem : sec' ∈ sections.set i sec' := List.mem_set hlt _
  constructor
  · rintro ⟨u, hu, hpast⟩
    rcases List.mem_or_eq_of_mem_set hu with hu | rfl
    · exact .inl ⟨u, hu, hpast⟩
    · exact ((hsec a voted).mp hpast).imp_left fun hpast => ⟨sec, List.mem_of_getElem? hi, hpast⟩
  · rintro (⟨u, hu, hpast⟩ | hX)
    · obtain ⟨j, hj⟩ := List.getElem?_of_mem hu
      by_cases hij : i = j
      · subst hij
        cases hi.symm.trans hj
        exact ⟨sec', hmem, (hsec a voted).mpr (.inl hpast)⟩
      · exact ⟨u, List.mem_of_getElem? (by rw [List.getElem?_set_ne hij, hj]), hpast⟩
    · exact ⟨sec', hmem, (hsec a voted).mpr (.inr hX)⟩

theorem StateOK.update (hok : StateOK dep cfg s) (hr : s.storage.rounds[i]? = some r) (hpolicy : r'.policy = r.policy)
    (hsec : SectionOK dep cfg sec' r')
    (hcons : Watermark (Recorded (PastIn (s.sections.set i sec') 4) Voted.reached epochOf) epoch.toNat) :
    StateOK dep cfg ({
      storage := { s.storage with rounds := s.storage.rounds.set i r', maxConsensusEpoch := epoch }
      sections := s.sections.set i sec' } : State cyc) where
  length := by simpa using hok.length
  resident k j hj := by
    obtain ⟨r₀, hr₀, hk⟩ := hok.resident k j hj
    rw [List.getElem?_set]
    by_cases hij : i = j
    · subst hij
      cases hr.symm.trans hr₀
      exact ⟨r', by rw [if_pos rfl, if_pos (List.getElem?_eq_some_iff.mp hr).1], by rw [hpolicy, hk]⟩
    · exact ⟨r₀, by rw [if_neg hij, hr₀], hk⟩
  sections := by
    refine Lts.forall_set (fun r₀ hr₀ => ?_) fun j u hne hu r₀ hr₀ => ?_
    · rw [List.getElem?_set_self (List.getElem?_eq_some_iff.mp hr).1] at hr₀
      cases hr₀
      exact hsec
    · rw [List.getElem?_set_ne (Ne.symm hne)] at hr₀
      exact hok.sections j u hu r₀ hr₀
  consensus := hcons

theorem StateOK.stored {policy : SigningPolicy} (hcollect : cfg.collectVoters = true) (hok : StateOK dep cfg s)
    (hlight : policy.weightSum ≤ 65535) (current : UInt32) :
    StateOK dep cfg ({
      storage := { s.storage with
        cyclic := cyc.store s.storage.cyclic policy.rewardEpochID s.storage.rounds.length
        rounds := s.storage.rounds ++ [createRound policy cfg.maxPendingRequests cfg.collectVoters]
        currentEpoch := current }
      sections := s.sections ++ [⟨Locks.start cfg policy, ∅⟩] } : State cyc) where
  length := by simp [hok.length]
  resident k i hi := by
    rw [cyc.get_store] at hi
    split at hi
    next heq =>
      cases hi
      exact ⟨_, List.getElem?_concat_length, heq.symm⟩
    next =>
      split at hi
      · cases hi
      · obtain ⟨r, hr, hk⟩ := hok.resident k i hi
        exact ⟨r, Lts.getElem?_snoc.mpr (.inl hr), hk⟩
  sections := by
    intro i sec hsec r hr
    rcases Lts.getElem?_snoc.mp hsec with hsec | ⟨rfl, rfl⟩
    · have hlt := (List.getElem?_eq_some_iff.mp hsec).1
      rw [List.getElem?_append_left (hok.length ▸ hlt)] at hr
      exact hok.sections i sec hsec r hr
    · rw [hok.length, List.getElem?_concat_length] at hr
      cases hr
      exact .start hcollect hlight
  consensus := by
    have hpast : PastIn (s.sections ++ [⟨Locks.start cfg policy, ∅⟩]) 4 = PastIn s.sections 4 := by
      funext a voted
      refine propext ⟨?_, fun ⟨sec, hsec, hpast⟩ => ⟨sec, List.mem_append_left _ hsec, hpast⟩⟩
      rintro ⟨sec, hsec, hpast⟩
      rcases List.mem_append.mp hsec with hsec | hsec
      · exact ⟨sec, hsec, hpast⟩
      · obtain ⟨n, ⟨against, hn⟩, -⟩ := List.mem_singleton.mp hsec ▸ hpast
        cases hn
    rw [hpast]
    exact hok.consensus

/-- A goroutine of a round goes on, or a call starts in a resident round. -/
theorem StateOK.moved {e : Locks.Event} {voting : Locks.State} (hok : StateOK dep cfg s)
    (hsec : s.sections[i]? = some sec) (hr : s.storage.rounds[i]? = some r)
    (hs : Locks.step dep cfg r.policy sec.voting e = some voting)
    (hcall : ∀ a, e = .addVote a → cyc.get s.storage.cyclic a.call.data.rewardEpochID = some i) :
    StateOK dep cfg { s with sections := s.sections.set i { sec with voting } } := by
  have hsecOK := hok.sections i sec hsec r hr
  have hmoved := hsecOK.moved hs fun a ha => by
    obtain ⟨r', hr', hepoch⟩ := hok.resident _ _ (hcall a ha)
    cases hr.symm.trans hr'
    exact hepoch.symm
  have hpast : PastIn (s.sections.set i { sec with voting }) 4 = PastIn s.sections 4 := by
    have hsame : ∀ a voted, Section.Past { sec with voting } 4 a voted ↔ sec.Past 4 a voted ∨ False := fun a voted =>
      (past_step (Locks.step_inv hs) hsecOK.begun (by decide) a voted).trans (or_iff_left id).symm
    exact funext fun a => funext fun voted => propext ((pastIn_set hsec hsame a voted).trans (or_iff_left id))
  have hrounds : s.storage.rounds.set i r = s.storage.rounds := by
    obtain ⟨hlt, rfl⟩ := List.getElem?_eq_some_iff.mp hr
    exact List.set_getElem_self hlt
  have hnew := hok.update hr rfl hmoved (hpast ▸ hok.consensus)
  rw [hrounds] at hnew
  exact hnew

theorem StateOK.step {e : Event} (hcollect : cfg.collectVoters = true) (hok : StateOK dep cfg s)
    (hlight : Light cyc s e) (hs : Step dep cfg s e s') : StateOK dep cfg s' := by
  cases hs with
  | same => exact hok
  | stored => exact hok.stored hcollect hlight _
  | moved hsec hr hvoting hcall => exact hok.moved hsec hr hvoting hcall
  | @recorded i n sec r a voted r' epoch next hsec hr hn hadv =>
    have hsecOK := hok.sections i sec hsec r hr
    obtain ⟨hpolicy, hsecOK'⟩ := hsecOK.recorded hn hadv
    refine hok.update hr hpolicy hsecOK' (consensus_advance hok.consensus hadv ?_ (fun hrank => ?_) (hsecOK.fits hn))
    · exact pastIn_set hsec (past_record hn hadv.rank_le 4)
    · exact ⟨sec, List.mem_of_getElem? hsec, n, hn, hrank⟩

theorem stateOK (hcollect : cfg.collectVoters = true) (hr : Lts.Reach (system dep cyc cfg) (Light cyc) s) :
    StateOK dep cfg s := by
  refine hr.invariant (StateOK dep cfg) ?_ fun s e s' _ hok hlight hs => hok.step hcollect hlight (step_inv hcollect hs)
  rintro s rfl
  refine ⟨rfl, fun k i hi => ?_, fun i sec hsec => ?_, .bot ?_⟩
  · cases (cyc.get_new _ k).symm.trans hi
  · cases hsec
  · rintro x ⟨a, voted, ⟨sec, hsec, -⟩, -⟩
    cases hsec

end Runs

/-! ## When no call is under way -/

section Idle

variable {dep : Deps} {cyc : CyclicPkg} {cfg : Config} {s : State cyc} {sec : Section} {r : Round} {a : Arg}
  {voted : Voted}

/-- The goroutine with number `n` is no `AddVote`, or it has returned. -/
def Section.over (sec : Section) (n : Nat) : Locks.Thread → Bool
  | .addVote _ _ (.returned (.ok _)) => sec.stage n = .returned
  | .addVote _ _ (.returned (.error _)) => true
  | .addVote _ _ _ => false
  | .scheduleEnd .. | .statuses .. => true

/-- No `AddVote` is under way in the round. -/
def Section.idle (sec : Section) : Bool := sec.voting.threads.zipIdx.all fun p => sec.over p.2 p.1

/-- The metrics of a round are those of its accepted votes and its boxes,
ended ones included. -/
structure Agrees (sec : Section) (r : Round) : Prop where
  voters : Marks r.providerVoters fun p =>
    p ∈ r.policy.voters.voters ∧ ∃ n a voted, sec.Has n a voted ∧ a.call.signer = p
  proposers : Marks r.proposers fun p => ∃ id hash box, sec.voting.heap.box? id hash = some box ∧ box.proposer = p
  weight : Watermark (fun w => ∃ id hash box, sec.voting.heap.box? id hash = some box ∧ box.weight.toNat = w)
    r.maxVotingWeight.toNat

/-- Some box of a round of the epoch is finalized. -/
def Finalized (s : State cyc) (e : Nat) : Prop :=
  ∃ (i : Nat) (sec : Section) (r : Round) (id hash : Hash) (box : VoteBox), s.sections[i]? = some sec ∧
    s.storage.rounds[i]? = some r ∧ sec.voting.heap.box? id hash = some box ∧ box.finalized = true ∧
    r.policy.rewardEpochID.toNat = e

theorem Section.Has.taken {n : Nat} (h : sec.Has n a voted) : Locks.Taken sec.voting.traces a voted := by
  obtain ⟨against, hn⟩ := h
  exact ⟨_, List.mem_of_getElem? (Locks.traces_of_thread hn), rfl, rfl⟩

/-- Where no call is under way every vote that was taken has its receipt and
is recorded. -/
theorem past_of_taken (hidle : sec.idle = true) (htaken : Locks.Taken sec.voting.traces a voted) {k : Nat}
    (hk : k ≤ 5) : sec.Past k a voted := by
  obtain ⟨τ, hτ, hop, hans⟩ := htaken
  obtain ⟨n, hn⟩ := List.getElem?_of_mem hτ
  obtain ⟨t, ht, rfl⟩ := Locks.thread_of_trace hn
  have hover : sec.over n t = true := List.all_eq_true.mp hidle (t, n) (List.mem_zipIdx_iff_getElem?.mpr ht)
  unfold Section.over at hover
  split at hover
  next =>
    cases hop
    cases hans
    refine ⟨n, ⟨_, ht⟩, ?_⟩
    rw [of_decide_eq_true hover]
    exact hk
  next => cases hans
  next => cases hover
  next => cases hop
  next => cases hop

theorem SectionOK.epoch_of_has {n : Nat} (hok : SectionOK dep cfg sec r) (hn : sec.Has n a voted) :
    a.call.data.rewardEpochID = r.policy.rewardEpochID := by
  obtain ⟨against, hn⟩ := hn
  exact hok.epoch _ (List.mem_of_getElem? hn) a rfl

theorem SectionOK.agrees (hok : SectionOK dep cfg sec r) (hidle : sec.idle = true) : Agrees sec r := by
  have htraced := Locks.traced hok.light hok.reach
  refine ⟨hok.metered.voters.congr fun p => ?_, hok.metered.proposers.congr fun p => ?_,
    hok.metered.weight.transfer ?_ ?_⟩
  · constructor
    · rintro ⟨hmem, n, a, voted, hn, rfl⟩
      obtain ⟨box, -, hbehind⟩ := htraced.votes a voted hn.taken
      exact ⟨a, voted, past_of_taken hidle hn.taken (by decide), hbehind.provider.mpr hmem, rfl⟩
    · rintro ⟨a, voted, ⟨n, hn, -⟩, hprovider, rfl⟩
      obtain ⟨box, -, hbehind⟩ := htraced.votes a voted hn.taken
      exact ⟨hbehind.provider.mp hprovider, n, a, voted, hn, rfl⟩
  · constructor
    · rintro ⟨id, hash, box, hbox, rfl⟩
      obtain ⟨a, voted, htaken, -, -, hstarted, hsigner⟩ := (htraced.boxes id hash box hbox).opened
      exact ⟨a, voted, past_of_taken hidle htaken (by decide), hstarted, hsigner⟩
    · rintro ⟨a, voted, ⟨n, hn, -⟩, hstarted, rfl⟩
      obtain ⟨box, hbox, hbehind⟩ := htraced.votes a voted hn.taken
      exact ⟨a.id, a.hash, box, hbox, hbehind.proposer hstarted⟩
  · rintro w ⟨a, voted, ⟨n, hn, -⟩, -, rfl⟩
    obtain ⟨box, hbox, hbehind⟩ := htraced.votes a voted hn.taken
    exact ⟨_, ⟨a.id, a.hash, box, hbox, rfl⟩, UInt16.le_iff_toNat_le.mp hbehind.weight⟩
  · rintro w ⟨id, hash, box, hbox, rfl⟩
    rcases (htraced.boxes id hash box hbox).weight with hzero | ⟨a, voted, htaken, -, -, hprovider, hweight⟩
    · exact .inl (by rw [hzero]; rfl)
    · exact .inr ⟨a, voted, past_of_taken hidle htaken (by decide), hprovider, congrArg UInt16.toNat hweight⟩

theorem StateOK.finalized (hok : StateOK dep cfg s) (hidle : ∀ sec ∈ s.sections, sec.idle = true) :
    Watermark (Finalized s) s.storage.maxConsensusEpoch.toNat := by
  refine hok.consensus.congr fun e => ⟨?_, ?_⟩
  · rintro ⟨i, sec, r, id, hash, box, hsec, hr, hbox, hfinalized, rfl⟩
    have hsecOK := hok.sections i sec hsec r hr
    have hmem := List.mem_of_getElem? hsec
    have htraced := Locks.traced hsecOK.light hsecOK.reach
    obtain ⟨a, voted, htaken, -, -, hreached⟩ := (htraced.boxes id hash box hbox).finalized hfinalized
    obtain ⟨n, hn, hrank⟩ := past_of_taken (k := 4) (hidle sec hmem) htaken (by decide)
    exact ⟨a, voted, ⟨sec, hmem, n, hn, hrank⟩, hreached, congrArg UInt32.toNat (hsecOK.epoch_of_has hn)⟩
  · rintro ⟨a, voted, ⟨sec, hmem, n, hn, -⟩, hreached, rfl⟩
    obtain ⟨i, hsec⟩ := List.getElem?_of_mem hmem
    have hlt := (List.getElem?_eq_some_iff.mp hsec).1
    rw [hok.length] at hlt
    have hr := List.getElem?_eq_getElem hlt
    have hsecOK := hok.sections i sec hsec _ hr
    obtain ⟨box, hbox, hbehind⟩ := (Locks.traced hsecOK.light hsecOK.reach).votes a voted hn.taken
    exact ⟨i, sec, _, a.id, a.hash, box, hsec, hr, hbox, hbehind.finalized hreached,
      congrArg UInt32.toNat (hsecOK.epoch_of_has hn).symm⟩

/-- **The participation metrics are those of the boxes.** With voters
collected and policies whose weights fit in 16 bits, whatever the order of
the calls and the expirations, where no call is under way: in every round the
providers that count as voters are those with an accepted vote, the proposers
those of its boxes, and the weight the largest of a box; and the consensus
epoch is the last with a finalized box. -/
theorem participation_agrees (hcollect : cfg.collectVoters = true)
    (hr : Lts.Reach (system dep cyc cfg) (Light cyc) s) (hidle : ∀ sec ∈ s.sections, sec.idle = true) :
    (∀ (i : Nat) (r : Round), s.storage.rounds[i]? = some r → ∃ sec, s.sections[i]? = some sec ∧ Agrees sec r) ∧
    Watermark (Finalized s) s.storage.maxConsensusEpoch.toNat := by
  have hok := stateOK hcollect hr
  refine ⟨fun i r hround => ?_, hok.finalized hidle⟩
  have hlt := (List.getElem?_eq_some_iff.mp hround).1
  rw [← hok.length] at hlt
  have hsec := List.getElem?_eq_getElem hlt
  exact ⟨_, hsec, (hok.sections i _ hsec r hround).agrees (hidle _ (List.getElem_mem hlt))⟩

/-- Two voters finalize a box of epoch 7, and the first to have its receipt is
the last to record its vote. A box of epoch 8 has one vote and ends. -/
def twoRounds : List Event :=
  List.flatten [
    [.storeNewRound (twoVoters 7), .storeNewRound (twoVoters 8), .addVote (plainCall 7 1 5 2 [2]) (clockAt 101),
      .addVote (plainCall 7 1 5 1 [1]) (clockAt 100), .addVote (plainCall 8 2 5 1 [1]) (clockAt 102)],
    List.replicate 9 (.round 0 (.run 1)), List.replicate 11 (.round 0 (.run 0)),
    List.replicate 9 (.round 1 (.run 0)), List.replicate 7 (.round 1 (.run 1)),
    List.replicate 6 (.record 0 0), List.replicate 5 (.record 0 1), List.replicate 5 (.record 1 0)]

theorem participation_agrees_two_rounds :
    ∃ (s : State .slots) (sec sec' : Section) (r r' : Round),
      Lts.Reach (system plainDeps .slots plainConfig) (Light .slots) s ∧ Agrees sec r ∧ r.maxVotingWeight = 4 ∧
      Agrees sec' r' ∧ r'.maxVotingWeight = 2 ∧ Watermark (Finalized s) 7 := by
  have hrun : ((system plainDeps .slots plainConfig).runIf (Light .slots) (start .slots plainConfig) twoRounds).any
      fun s => s.sections.all Section.idle && decide (s.storage.maxConsensusEpoch = 7) &&
        s.storage.rounds[0]?.any (·.maxVotingWeight = 4) && s.storage.rounds[1]?.any (·.maxVotingWeight = 2) := by
    decide +kernel
  obtain ⟨s, hs, hend⟩ := (Option.any_eq_true _ _).mp hrun
  simp only [Bool.and_eq_true, List.all_eq_true, decide_eq_true_eq, Option.any_eq_true] at hend
  obtain ⟨⟨⟨hidle, hepoch⟩, r, hr, hweight⟩, r', hr', hweight'⟩ := hend
  have hreach : Lts.Reach (system plainDeps .slots plainConfig) (Light .slots) s := .of_runIf (.init rfl) hs
  obtain ⟨hagrees, hfinalized⟩ := participation_agrees rfl hreach hidle
  obtain ⟨sec, -, hsec⟩ := hagrees 0 r hr
  obtain ⟨sec', -, hsec'⟩ := hagrees 1 r' hr'
  rw [hepoch] at hfinalized
  exact ⟨s, sec, sec', r, r', hreach, hsec, hweight, hsec', hweight', hfinalized⟩

end Idle

end TeeProxy.Voting.Participation
