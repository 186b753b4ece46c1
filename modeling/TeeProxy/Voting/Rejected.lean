/-
What a rejected vote leaves behind. A call that returns an error changes no
round, but for two paths behind `startVoteBox`, where `addVote` fails: the
slot reserved for a new box is not released, because only a failed
`buildVoteBox` releases it, and a stored box keeps the hash that came with
the error of `NextVoteHash`.
-/
import TeeProxy.Voting.Storage

namespace TeeProxy.Voting

/-- The voting of two rounds is the same: the instruction IDs, every box, the
finalized hashes, and every pending count. -/
structure Round.Same (r r' : Round) : Prop where
  ids : ∀ id, id ∈ r'.voting.keys ↔ id ∈ r.voting.keys
  boxes : ∀ id hash, r'.box? id hash = r.box? id hash
  finalizedHash : ∀ id, r'.finalizedHash id = r.finalizedHash id
  pending : ∀ a, r'.limiter.pending a = r.limiter.pending a

theorem Round.Same.refl (r : Round) : Round.Same r r :=
  ⟨fun _ => Iff.rfl, fun _ _ => rfl, fun _ => rfl, fun _ => rfl⟩

/-- The voting of all rounds is the same. -/
def Storage.Same {cyc : CyclicPkg} (s s' : Storage cyc) : Prop :=
  s'.rounds.length = s.rounds.length ∧
    ∀ (i : Nat) (r r' : Round), s.rounds[i]? = some r → s'.rounds[i]? = some r' → Round.Same r r'

section Spill

variable (dep : Deps) (cfg : Config)

/-- What `NextVoteHash` returns for the vote of the call on a box. -/
def VoteBox.nextHash (box : VoteBox) (call : Call) (clock : Clock) : Hash × Option PkgErr :=
  dep.instruction.nextVoteHash box.voteHash box.votes.size call.signature call.data.additionalVariableMessage
    clock.vote.unixU64

/-- The vote of the call gets as far as `NextVoteHash`: its signer may vote on
the box and has not, and the box has not ended. -/
structure Votable (policy : SigningPolicy) (call : Call) (clock : Clock) (box : VoteBox) : Prop where
  group : (voterGroupCheck call.signer policy.voters.voterDataMap box.proposal.cosigners).1 ≠ .invalidVoter
  running : box.endTime.before clock.vote = false
  new : box.votes.get? call.signer = none

/-- The call finds no box and may open this one. -/
structure Round.Opens (r : Round) (hash : Hash) (call : Call) (clock : Clock) (box : VoteBox) : Prop where
  missing : r.box? call.data.instructionID hash = none
  event : clock.start.before ((GoTime.unix call.data.timestamp).add (-eventFutureSlack)) = false
  registered : r.limiter.registered call.signer
  below : r.limiter.pending call.signer < r.limiter.maxPendingRequests
  built : buildVoteBox dep cfg r.policy call clock.build = .ok box

/-- A box may be opened that cannot take its first vote, or a stored box can
take the vote and `NextVoteHash` fails on it with another hash. -/
def Round.Spills (r : Round) (hash : Hash) (call : Call) (clock : Clock) : Prop :=
  (∃ box, r.Opens dep cfg hash call clock box ∧
    (Votable r.policy call clock box → (box.nextHash dep call clock).2.isSome)) ∨
  ∃ box, r.box? call.data.instructionID hash = some box ∧ box.deleted = false ∧ Votable r.policy call clock box ∧
    (box.nextHash dep call clock).2.isSome ∧ (box.nextHash dep call clock).1 ≠ box.voteHash

/-- `Round.Spills` in the round that the call is looked up in. -/
def Storage.Spills {cyc : CyclicPkg} (s : Storage cyc) (call : Call) (clock : Clock) : Prop :=
  ∃ i hash r, s.lookup dep cfg call = .ok (i, hash) ∧ s.rounds[i]? = some r ∧ r.Spills dep cfg hash call clock

end Spill

section Rejection

variable {dep : Deps} {cfg : Config} {cyc : CyclicPkg} {r r' : Round} {hash : Hash} {call : Call} {clock : Clock}
  {box box' : VoteBox} {e : VoteErr}

/-- A box found in a round is found under a stored instruction ID. -/
theorem Round.mem_ids_of_box? {id : Hash} (hb : r.box? id hash = some box) : id ∈ r.voting.keys := by
  rw [GoMap.mem_keys]
  cases hv : r.voting.get? id with
  | some bs => exact ⟨bs, rfl⟩
  | none => simp [Round.box?, Round.boxes, hv, newVoteBoxes] at hb

theorem Round.ids_setBox (r : Round) (id hash : Hash) (box : VoteBox) (id' : Hash) :
    id' ∈ (r.setBox id hash box).voting.keys ↔ id' = id ∨ id' ∈ r.voting.keys := by
  simp only [GoMap.mem_keys, Round.setBox, GoMap.get?_set]
  by_cases h : id' = id <;> simp [h]

/-- Writing a stored box changes the voting exactly when it changes the box. -/
theorem Round.same_setBox_iff {id : Hash} (hb : r.box? id hash = some box) :
    Round.Same r (r.setBox id hash box') ↔ box' = box := by
  constructor
  · intro h
    have := h.boxes id hash
    rw [Round.box?_setBox_self, hb] at this
    exact Option.some.inj this
  · rintro rfl
    refine ⟨fun id' => ?_, fun id' hash' => ?_, fun _ => Round.finalizedHash_setBox, fun _ => rfl⟩
    · rw [Round.ids_setBox]
      exact ⟨fun h => h.elim (fun he => he ▸ Round.mem_ids_of_box? hb) fun h => h, .inr⟩
    · rw [Round.box?_setBox]
      split
      next h => rw [h.1, h.2, hb]
      next => rfl

/-- A refused vote did not get as far as `NextVoteHash` and left the box as it
was, or left the hash that came with the error. -/
theorem castOn_error (h : castOn dep r.policy call clock box = (box', .error e)) :
    ¬ Votable r.policy call clock box ∧ box' = box ∨
      Votable r.policy call clock box ∧ (box.nextHash dep call clock).2.isSome ∧
        box' = { box with voteHash := (box.nextHash dep call clock).1 } := by
  unfold castOn VoteBox.addVote at h
  dsimp only at h
  split at h
  next hg => exact .inl ⟨fun hv => hv.group hg, (Prod.mk.inj h).1.symm⟩
  next hg =>
  split at h
  next hend => exact .inl ⟨fun hv => Bool.false_ne_true (hv.running.symm.trans hend), (Prod.mk.inj h).1.symm⟩
  next hend =>
  split at h
  next hvoted => exact .inl ⟨fun hv => by simp [hv.new] at hvoted, (Prod.mk.inj h).1.symm⟩
  next hvoted =>
  have hv : Votable r.policy call clock box := ⟨hg, by simpa using hend, by simpa using hvoted⟩
  split at h
  next voteHash err hn =>
    have hnext : box.nextHash dep call clock = (voteHash, some err) := hn
    rw [hnext]
    exact .inr ⟨hv, rfl, (Prod.mk.inj h).1.symm⟩
  next => split at h <;> cases h

theorem Round.Opens.startVoteBox (h : r.Opens dep cfg hash call clock box) :
    ∃ limiter, startVoteBox dep cfg r.policy r.limiter call clock = (limiter, .ok box) := by
  obtain ⟨limiter, hl⟩ := Limiter.increment_of_below h.registered h.below
  refine ⟨limiter, ?_⟩
  unfold Voting.startVoteBox
  rw [if_neg (by simp [h.event]), hl]
  simp only [h.built]

theorem Round.opens_of_startVoteBox {limiter : Limiter} (hb : r.box? call.data.instructionID hash = none)
    (h : startVoteBox dep cfg r.policy r.limiter call clock = (limiter, .ok box)) :
    r.Opens dep cfg hash call clock box := by
  have ha := (startVoteBox_ok h).1
  unfold Voting.startVoteBox at h
  split at h
  · cases h
  next hevent =>
  split at h
  · cases h
  split at h
  · cases h
  next hbuild =>
  obtain rfl := Except.ok.inj (Prod.mk.inj h).2
  exact ⟨hb, by simpa using hevent, ha.registered, ha.below, hbuild⟩

/-- **One round.** A critical section that fails keeps the voting exactly when
nothing spills. -/
theorem Round.same_of_rejected_iff (h : r.castVote dep cfg hash call clock = (r', .error e)) :
    Round.Same r r' ↔ ¬ r.Spills dep cfg hash call clock := by
  cases Round.castVote_cast h with
  | refused hb ho =>
    refine iff_of_true ⟨fun _ => Iff.rfl, fun _ _ => rfl, fun _ => rfl, (startVoteBox_error ho).pending⟩ ?_
    rintro (⟨box, hopens, -⟩ | ⟨box, hb', -⟩)
    · obtain ⟨limiter, hs⟩ := hopens.startVoteBox
      cases ho.symm.trans hs
    · cases hb.symm.trans hb'
  | ended hb hdel =>
    refine iff_of_true (.refl r) ?_
    rintro (⟨box, hopens, -⟩ | ⟨box, hb', hd, -⟩)
    · cases hb.symm.trans hopens.missing
    · obtain rfl := Option.some.inj (hb.symm.trans hb')
      cases hdel.symm.trans hd
  | @rejected box box' _ hb hd hc =>
    rw [Round.same_setBox_iff hb]
    have hspills : r.Spills dep cfg hash call clock ↔ Votable r.policy call clock box ∧
        (box.nextHash dep call clock).2.isSome ∧ (box.nextHash dep call clock).1 ≠ box.voteHash := by
      constructor
      · rintro (⟨box, hopens, -⟩ | ⟨box, hb', -, hs⟩)
        · cases hb.symm.trans hopens.missing
        · obtain rfl := Option.some.inj (hb.symm.trans hb')
          exact hs
      · exact fun hs => .inr ⟨box, hb, hd, hs⟩
    rw [hspills]
    rcases castOn_error hc with ⟨hv, rfl⟩ | ⟨hv, hfails, rfl⟩
    · exact iff_of_true rfl fun hs => hv hs.1
    · constructor
      · exact fun heq hs => hs.2.2 (congrArg VoteBox.voteHash heq)
      · intro hno
        have heq : (box.nextHash dep call clock).1 = box.voteHash := not_not.mp fun hne => hno ⟨hv, hfails, hne⟩
        rw [heq]
  | leaked hb ho hc =>
    -- the proposer's count went up and no box was stored for it
    refine iff_of_false (fun hs => ?_) (not_not.mpr ?_)
    · have hp := (startVoteBox_ok ho).1.pending call.signer
      have hsame := hs.pending call.signer
      rw [if_pos rfl] at hp
      exact absurd (hsame.symm.trans hp) (Nat.succ_ne_self _).symm
    · refine .inl ⟨_, Round.opens_of_startVoteBox hb ho, fun hv => ?_⟩
      rcases castOn_error hc with ⟨hnv, -⟩ | ⟨-, hfails, -⟩
      · exact absurd hv hnv
      · exact hfails

/-- **When a rejected vote changes nothing.** For every storage, call and
clock, whatever the metadata and `NextVoteHash` return: a call that returns an
error leaves the instruction IDs, every box and every pending count of every
round as they were if and only if it may not open a box that cannot take its
vote, and `NextVoteHash` does not fail with another hash on a stored box that
can. -/
theorem rejected_vote_same_iff (s s' : Storage cyc) (call : Call) (clock : Clock) (e : VoteErr)
    (h : s.addVote dep cfg call clock = some (s', .error e)) :
    Storage.Same s s' ↔ ¬ s.Spills dep cfg call clock := by
  unfold Storage.addVote at h
  cases hl : s.lookup dep cfg call with
  | error e' =>
    simp only [hl, Option.some.injEq, Prod.mk.injEq] at h
    obtain ⟨rfl, -⟩ := h
    refine iff_of_true ⟨rfl, fun i r r' hr hr' => ?_⟩ ?_
    · obtain rfl := Option.some.inj (hr.symm.trans hr')
      exact .refl r
    · rintro ⟨i, hash, r, hok, -⟩
      cases hl.symm.trans hok
  | ok found =>
    obtain ⟨i, hash⟩ := found
    simp only [hl] at h
    obtain ⟨r, r', hr, hc, rfl⟩ := Storage.vote_error h
    have hiff := Round.same_of_rejected_iff hc
    have hlt := (List.getElem?_eq_some_iff.mp hr).1
    constructor
    · rintro ⟨-, hs⟩ ⟨i', hash', r₀, hok, hr₀, hspills⟩
      obtain ⟨rfl, rfl⟩ := Prod.mk.inj (Except.ok.inj (hl.symm.trans hok))
      obtain rfl := Option.some.inj (hr.symm.trans hr₀)
      exact hiff.mp (hs i r r' hr (List.getElem?_set_self hlt)) hspills
    · intro hno
      refine ⟨List.length_set, fun j r₁ r₂ hr₁ hr₂ => ?_⟩
      by_cases hij : i = j
      · subst hij
        rw [List.getElem?_set_self hlt] at hr₂
        obtain rfl := Option.some.inj (hr.symm.trans hr₁)
        obtain rfl := Option.some.inj hr₂
        exact hiff.mpr fun hspills => hno ⟨i, hash, r, hl, hr, hspills⟩
      · rw [List.getElem?_set_ne hij] at hr₂
        obtain rfl := Option.some.inj (hr₁.symm.trans hr₂)
        exact .refl r₁

end Rejection

/-! ## Both spills -/

/-- A round nobody has voted in. -/
def newRound : State .slots :=
  ((system plainDeps .slots plainConfig).run (start .slots plainConfig) [.storeNewRound (twoVoters 7)]).get rfl

/-- A clock on which the call is held up for longer than the expiration
between opening its box and casting its vote. -/
def heldUp : Clock := ⟨(clockAt 100).start, (clockAt 100).build, (clockAt 161).vote⟩

/-- The packages with a `NextVoteHash` that fails after the first vote. -/
def failingDeps : Deps :=
  ⟨.numbered, { InstructionPkg.stamped with
    nextVoteHash := fun h seq _ _ _ => if seq = 0 then (h + 1, none) else (0, some "next vote hash") }⟩

/-- A box with one vote. -/
def oneVote : State .slots :=
  ((system failingDeps .slots plainConfig).run (start .slots plainConfig)
    [.storeNewRound (twoVoters 7), .addVote (plainCall 7 1 5 1 [1]), .castVote 0 (clockAt 100)]).get rfl

/-- Two rejected votes that change the voting. A call held up past the end of
the box it opened is told that the voting has ended: no box is stored and its
signer has a pending proposal more. A second voter whose vote hash cannot be
computed is refused: the box loses its vote hash. -/
theorem rejected_vote_changes_voting :
    (Lts.Reach (system plainDeps .slots plainConfig) Lts.Free newRound ∧ 0 < plainConfig.proposalExpiration ∧
      heldUp.start.before heldUp.build = false ∧ heldUp.build.before heldUp.vote = true ∧
      ∃ s', newRound.storage.addVote plainDeps plainConfig (plainCall 7 1 5 1 [1]) heldUp =
          some (s', .error (.addingVote 1 1 .votingEnded)) ∧
        newRound.storage.rounds.map (fun r => (r.voting.keys, r.limiter.pending 1)) = [([], 0)] ∧
        s'.rounds.map (fun r => (r.voting.keys, r.limiter.pending 1)) = [([], 1)]) ∧
    (Lts.Reach (system failingDeps .slots plainConfig) Lts.Free oneVote ∧
      ∃ s', oneVote.storage.addVote failingDeps plainConfig (plainCall 7 1 5 2 [2]) (clockAt 101) =
          some (s', .error (.addingVote 2 1 (.nextVoteHash "next vote hash"))) ∧
        (oneVote.storage.box? ⟨0, 1, 6⟩).map (fun b => (b.votes.keys, b.voteHash)) = some ([1], 1) ∧
        (s'.box? ⟨0, 1, 6⟩).map (fun b => (b.votes.keys, b.voteHash)) = some ([1], 0)) := by
  refine ⟨⟨.of_run (.init rfl) (fun _ _ _ => trivial) (Option.some_get _).symm, by decide, rfl, rfl, _, rfl, rfl, rfl⟩,
    .of_run (.init rfl) (fun _ _ _ => trivial) (Option.some_get _).symm, _, rfl, rfl, rfl⟩

/-- A vote by a stranger is rejected and changes nothing. -/
theorem rejected_vote_same_stranger :
    ∃ s', newRound.storage.addVote plainDeps plainConfig (plainCall 7 1 5 3 [3]) (clockAt 100) =
        some (s', .error (.limiter .cannotInitialize)) ∧ Storage.Same newRound.storage s' := by
  obtain ⟨s', hs⟩ : ∃ s', newRound.storage.addVote plainDeps plainConfig (plainCall 7 1 5 3 [3]) (clockAt 100) =
    some (s', .error (.limiter .cannotInitialize)) := ⟨_, rfl⟩
  refine ⟨s', hs, (rejected_vote_same_iff _ _ _ _ _ hs).mpr ?_⟩
  -- no box is stored, and a stranger has no slot
  rintro ⟨i, hash, r, hl, hr, hspills⟩
  cases hl
  cases hr
  rcases hspills with ⟨box, hopens, -⟩ | ⟨box, hb, -⟩
  · exact absurd (Limiter.registered_new.mp hopens.registered) (by decide)
  · cases hb

end TeeProxy.Voting
