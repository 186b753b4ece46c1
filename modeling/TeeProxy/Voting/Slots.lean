/-
The limiter counts the boxes a voter has open. Every stored box that is not
finalized, deleted or not, holds one slot of its proposer, so their number is
at most the pending count, which is at most the cap. The two differ only by
the slots of boxes that were opened and then did not take their first vote.
-/
import TeeProxy.Voting.Storage

namespace TeeProxy.Voting

/-! ## Counting boxes -/

/-- The sum over the stored boxes of a round. -/
def Round.sumBoxes (f : VoteBox → Nat) (r : Round) : Nat :=
  r.voting.sumBy fun _ bs => bs.m.sumBy fun _ box => f box

/-- The slots of `p` a box holds. -/
def openOf (p : Address) (box : VoteBox) : Nat := if box.proposer = p ∧ box.finalized = false then 1 else 0

/-- How many stored boxes of proposer `p` are not finalized. -/
def Round.openCount (r : Round) (p : Address) : Nat := r.sumBoxes (openOf p)

section Sums

variable {r : Round} {id hash : Hash} {old : VoteBox} {f : VoteBox → Nat}

/-- A sum over boxes moves as the sum over the boxes of one ID does. -/
theorem Round.sumBoxes_set (r : Round) (id : Hash) (bs : VoteBoxes) :
    ({ r with voting := r.voting.set id bs } : Round).sumBoxes f + (r.boxes id).m.sumBy (fun _ b => f b) =
      bs.m.sumBy (fun _ b => f b) + r.sumBoxes f :=
  GoMap.sumBy_set_getD (f := fun _ (bs : VoteBoxes) => bs.m.sumBy fun _ b => f b) rfl r.voting bs

theorem Round.sumBoxes_setBox_new (h : r.box? id hash = none) (box : VoteBox) :
    (r.setBox id hash box).sumBoxes f = f box + r.sumBoxes f := by
  have hs := r.sumBoxes_set (f := f) id { r.boxes id with m := (r.boxes id).m.set hash box }
  rw [GoMap.sumBy_set_new h] at hs
  unfold Round.setBox
  omega

theorem Round.sumBoxes_setBox (h : r.box? id hash = some old) (box : VoteBox) :
    (r.setBox id hash box).sumBoxes f + f old = f box + r.sumBoxes f := by
  have hs := r.sumBoxes_set (f := f) id { r.boxes id with m := (r.boxes id).m.set hash box }
  have hm := GoMap.sumBy_set_of_get? h (fun _ b => f b) box
  unfold Round.setBox
  dsimp only at hs hm ⊢
  omega

@[simp] theorem Round.sumBoxes_setFinalizedHash : (r.setFinalizedHash id hash).sumBoxes f = r.sumBoxes f := by
  have hs := r.sumBoxes_set (f := f) id { r.boxes id with finalizedHash := hash }
  unfold Round.setFinalizedHash
  dsimp only at hs ⊢
  omega

@[simp] theorem Round.sumBoxes_limiter (l : Limiter) : ({ r with limiter := l } : Round).sumBoxes f = r.sumBoxes f :=
  rfl

end Sums

/-! ## What a critical section does to the counts -/

section Counts

variable {dep : Deps} {cfg : Config} {r r' r₁ : Round} {hash : Hash} {call : Call} {clock : Clock}
  {box box' : VoteBox} {existsB reached : Bool}

theorem Recorded.openOf (h : Recorded call clock box reached box') (p : Address) :
    Voting.openOf p box' = if reached then 0 else Voting.openOf p box := by
  unfold Voting.openOf
  rw [h.proposer, h.finalized]
  cases reached <;> simp

theorem Fresh.openOf {policy : SigningPolicy} (h : Fresh dep policy call box) (p : Address) :
    Voting.openOf p box = if p = call.signer then 1 else 0 := by
  unfold Voting.openOf
  rw [h.proposer, h.finalized]
  simp [eq_comm]

/-- Storing the box that took the vote moves the open boxes as admission
moved the pending count, whether the box was there or is new. -/
theorem Target.counts (ht : Target dep cfg r hash call clock r₁ box existsB) (box' : VoteBox) (p : Address) :
    (r₁.setBox call.data.instructionID hash box').openCount p + r.limiter.pending p + openOf p box =
      openOf p box' + r.openCount p + r₁.limiter.pending p := by
  unfold Round.openCount
  cases ht with
  | stored hb _ =>
    have := Round.sumBoxes_setBox (f := openOf p) hb box'
    omega
  | @opened limiter _ hb ho =>
    obtain ⟨ha, hf⟩ := startVoteBox_ok ho
    have hsum : (Round.setBox { r with limiter } call.data.instructionID hash box').sumBoxes (openOf p) =
        openOf p box' + r.sumBoxes (openOf p) := Round.sumBoxes_setBox_new (r := { r with limiter }) hb box'
    have hp := ha.pending p
    rw [hf.openOf p]
    change _ = _ + limiter.pending p
    omega

/-- The slot of a box that is voted on is in the pending count. -/
theorem Target.held (ht : Target dep cfg r hash call clock r₁ box existsB)
    (hheld : ∀ p, r.openCount p ≤ r.limiter.pending p) (p : Address) : openOf p box ≤ r₁.limiter.pending p := by
  have hc := ht.counts { box with finalized := true } p
  have h0 : openOf p { box with finalized := true } = 0 := by simp [openOf]
  have := hheld p
  omega

@[simp] theorem Round.openCount_finalize (r : Round) (hash : Hash) (call : Call) (box : VoteBox) (voted : Voted)
    (p : Address) : (r.finalize dep hash call box voted).1.openCount p = r.openCount p := by
  rw [Round.finalize_eq, Round.openCount, Round.sumBoxes_limiter]
  split <;> simp [Round.openCount]

/-- A finalization gives back exactly the slot its box holds: the pending
count is not zero there. -/
theorem Target.released (ht : Target dep cfg r hash call clock r₁ box existsB)
    (hheld : ∀ p, r.openCount p ≤ r.limiter.pending p) (hrec : Recorded call clock box true box') :
    0 < r₁.limiter.pending box.proposer ∧ ∀ p, (r₁.limiter.decrement box'.proposer).pending p +
      openOf p box = r₁.limiter.pending p := by
  have hone : ∀ p, openOf p box = if p = box.proposer then 1 else 0 := fun p => by
    simp [openOf, hrec.unfinalized rfl, eq_comm]
  refine ⟨?_, fun p => ?_⟩
  · have := ht.held hheld box.proposer
    rw [hone, if_pos rfl] at this
    exact this
  · have := ht.held hheld p
    rw [Limiter.pending_decrement, hrec.proposer, ← hone]
    omega

/-- A new box that did not take its first vote. -/
def Leak (dep : Deps) (cfg : Config) (r : Round) (hash : Hash) (call : Call) (clock : Clock) : Prop :=
  (∃ r₁ box, r.openBox dep cfg hash call clock = (r₁, .ok (box, false))) ∧
    ∃ r' e, r.castVote dep cfg hash call clock = (r', .error e)

/-- **The step.** Open boxes and pending slots move together, but for a slot
that leaks. -/
theorem castVote_counts {res : Except VoteErr Voted} (hheld : ∀ p, r.openCount p ≤ r.limiter.pending p)
    (h : r.castVote dep cfg hash call clock = (r', res)) :
    (∀ p, r'.openCount p + r.limiter.pending p = r.openCount p + r'.limiter.pending p) ∨
      Leak dep cfg r hash call clock ∧ ∀ p, r'.openCount p = r.openCount p ∧
        r'.limiter.pending p = r.limiter.pending p + if p = call.signer then 1 else 0 := by
  cases Round.castVote_cast h with
  | @refused limiter _ _ ho =>
    refine .inl fun p => ?_
    change r.openCount p + _ = r.openCount p + limiter.pending p
    rw [(startVoteBox_error ho).pending p]
  | ended => exact .inl fun _ => rfl
  | @rejected box box' _ hb _ hc =>
    refine .inl fun p => ?_
    have hs := Round.sumBoxes_setBox (f := openOf p) hb box'
    have hsame : openOf p box' = openOf p box := by
      obtain ⟨voteHash, rfl⟩ := VoteBox.addVote_error hc
      rfl
    rw [Round.limiter_setBox, Round.openCount, Round.openCount]
    omega
  | leaked hb ho _ =>
    exact .inr ⟨⟨⟨_, _, (Target.opened hb ho).openBox⟩, _, _, h⟩,
      fun p => ⟨rfl, (startVoteBox_ok ho).1.pending p⟩⟩
  | recorded ht hc =>
    refine .inl fun p => ?_
    have hrec := castOn_ok hc
    have hcounts := ht.counts ‹_› p
    rw [hrec.openOf p] at hcounts
    simp only [Bool.false_eq_true, if_false] at hcounts
    rw [Round.limiter_setBox]
    omega
  | finalized ht hc =>
    refine .inl fun p => ?_
    have hrec := castOn_ok hc
    have hcounts := ht.counts ‹_› p
    have hrel := (ht.released hheld hrec).2 p
    rw [hrec.openOf p, if_pos rfl] at hcounts
    rw [Round.openCount_finalize, Round.limiter_finalize, Round.limiter_setBox]
    omega

end Counts

/-! ## The invariant -/

/-- The proposer of a stored box is a policy voter, and cast its first vote. -/
structure Proposed (policy : SigningPolicy) (box : VoteBox) : Prop where
  voter : box.proposer ∈ policy.voters.voters
  voted : box.deleted = false → ∃ v, box.votes.get? box.proposer = some v
  first : box.deleted = false → ∀ a v, box.votes.get? a = some v → (v.sequence = 0 ↔ a = box.proposer)

/-- The limiter counts at least the open boxes of each proposer, and keeps to
its limit. -/
structure SlotsOK (cfg : Config) (r : Round) : Prop where
  held : ∀ p, r.openCount p ≤ r.limiter.pending p
  cap : ∀ p, r.limiter.pending p ≤ cfg.maxPendingRequests
  limit : r.limiter.maxPendingRequests = cfg.maxPendingRequests
  registered : ∀ p, r.limiter.registered p ↔ p ∈ r.policy.voters.voters
  proposed : ∀ id hash box, r.box? id hash = some box → Proposed r.policy box

section Preservation

variable {dep : Deps} {cfg : Config} {r r' r₁ : Round} {hash : Hash} {call : Call} {clock : Clock}
  {box box' : VoteBox} {existsB reached : Bool}

/-- The proposer keeps the first vote: a later one has a later number. -/
theorem Proposed.recorded {policy : SigningPolicy} (h : Proposed policy box) (hd : box.deleted = false)
    (hrec : Recorded call clock box reached box') : Proposed policy box' := by
  obtain ⟨w, hw⟩ := h.voted hd
  have hne : call.signer ≠ box.proposer := by
    rintro heq
    rw [← heq, hrec.new] at hw
    cases hw
  refine ⟨hrec.proposer ▸ h.voter, fun _ => ⟨w, ?_⟩, fun _ a v hv => ?_⟩
  · rw [hrec.votes, hrec.proposer, GoMap.get?_set_ne _ hne.symm, hw]
  · rw [hrec.votes, GoMap.get?_set] at hv
    rw [hrec.proposer]
    split at hv
    next ha =>
      cases hv
      have hpos : 0 < box.votes.size := List.length_pos_of_mem (GoMap.mem_keys.mpr ⟨w, hw⟩)
      rw [ha]
      exact ⟨fun h0 => absurd h0 hpos.ne', fun he => absurd he hne⟩
    next => exact h.first hd a v hv

theorem Proposed.opened {policy : SigningPolicy} (hv : call.signer ∈ policy.voters.voters)
    (hf : Fresh dep policy call box) (hrec : Recorded call clock box reached box') : Proposed policy box' := by
  have hp : box'.proposer = call.signer := hrec.proposer.trans hf.proposer
  refine ⟨hp ▸ hv, fun _ => ?_, fun _ a v hget => ?_⟩
  · rw [hrec.votes, hp, GoMap.get?_set_self]; exact ⟨_, rfl⟩
  · rw [hrec.votes, hf.votes, GoMap.get?_set] at hget
    rw [hp]
    split at hget
    next ha =>
      cases hget
      exact ⟨fun _ => ha, fun _ => by rw [VoteBox.nextVote, hf.votes]; rfl⟩
    next => cases hget

theorem SlotsOK.target (h : SlotsOK cfg r) (ht : Target dep cfg r hash call clock r₁ box existsB)
    (hrec : Recorded call clock box reached box') : Proposed r.policy box' := by
  cases ht with
  | stored hb hd => exact (h.proposed _ _ _ hb).recorded hd hrec
  | opened _ ho =>
    obtain ⟨ha, hf⟩ := startVoteBox_ok ho
    exact .opened ((h.registered _).mp ha.registered) hf hrec

/-- Who is registered, the cap, and that nobody is above it. -/
theorem SlotsOK.limiter_admitted {l : Limiter} (h : SlotsOK cfg r) (ha : r.limiter.Admitted call.signer l) :
    (∀ p, l.pending p ≤ cfg.maxPendingRequests) ∧ l.maxPendingRequests = cfg.maxPendingRequests ∧
      ∀ p, l.registered p ↔ p ∈ r.policy.voters.voters := by
  refine ⟨fun p => ?_, ha.cap.trans h.limit, fun p => (ha.keys p).trans (h.registered p)⟩
  rw [ha.pending p]
  split
  next hp => subst hp; exact h.limit ▸ ha.below
  next => exact h.cap p

theorem SlotsOK.limiter_target (h : SlotsOK cfg r) (ht : Target dep cfg r hash call clock r₁ box existsB) :
    (∀ p, r₁.limiter.pending p ≤ cfg.maxPendingRequests) ∧
      r₁.limiter.maxPendingRequests = cfg.maxPendingRequests ∧
      ∀ p, r₁.limiter.registered p ↔ p ∈ r.policy.voters.voters := by
  cases ht with
  | stored => exact ⟨h.cap, h.limit, h.registered⟩
  | opened _ ho => exact h.limiter_admitted (startVoteBox_ok ho).1

theorem SlotsOK.castVote {res : Except VoteErr Voted} (h : SlotsOK cfg r)
    (hcast : r.castVote dep cfg hash call clock = (r', res)) : SlotsOK cfg r' := by
  have hheld : ∀ p, r'.openCount p ≤ r'.limiter.pending p := fun p => by
    have hp := h.held p
    rcases castVote_counts h.held hcast with hc | ⟨-, hc⟩
    · have := hc p; omega
    · have := hc p; omega
  cases Round.castVote_cast hcast with
  | refused _ ho =>
    have hs := startVoteBox_error ho
    exact ⟨hheld, fun p => (hs.pending p).trans_le (h.cap p), hs.cap.trans h.limit,
      fun p => (hs.registered p).trans (h.registered p), h.proposed⟩
  | ended => exact h
  | @rejected box box' _ hb hd hc =>
    have hbox : Proposed r.policy box' := by
      obtain ⟨voteHash, rfl⟩ := VoteBox.addVote_error hc
      have hold := h.proposed _ _ _ hb
      exact ⟨hold.voter, hold.voted, hold.first⟩
    exact ⟨hheld, h.cap, h.limit, h.registered, Round.forall_setBox h.proposed hbox⟩
  | leaked _ ho =>
    obtain ⟨hcap, hlimit, hreg⟩ := h.limiter_admitted (startVoteBox_ok ho).1
    exact ⟨hheld, hcap, hlimit, hreg, h.proposed⟩
  | recorded ht hc =>
    obtain ⟨hcap, hlimit, hreg⟩ := h.limiter_target ht
    have hall := ht.forall_setBox h.proposed (h.target ht (castOn_ok hc))
    rw [← ht.policy] at hreg hall
    exact ⟨hheld, hcap, hlimit, hreg, hall⟩
  | finalized ht hc =>
    obtain ⟨hcap, hlimit, hreg⟩ := h.limiter_target ht
    have hall := ht.forall_setBox h.proposed (h.target ht (castOn_ok hc))
    rw [← ht.policy] at hreg hall
    refine ⟨hheld, fun p => ?_, ?_, fun p => ?_, fun id hash box hb => ?_⟩
    · rw [Round.limiter_finalize, Round.limiter_setBox, Limiter.pending_decrement]
      exact (Nat.sub_le _ _).trans (hcap p)
    · rw [Round.limiter_finalize, Limiter.cap_decrement]; exact hlimit
    · rw [Round.limiter_finalize, Limiter.registered_decrement, Round.policy_finalize]; exact hreg p
    · rw [Round.policy_finalize]
      rw [Round.box?_finalize] at hb
      exact hall id hash box hb

theorem SlotsOK.created (policy : SigningPolicy) :
    SlotsOK cfg (createRound policy cfg.maxPendingRequests cfg.collectVoters) where
  held _ := Nat.zero_le _
  cap p := by simp [createRound, Limiter.pending_new]
  limit := rfl
  registered p := Limiter.registered_new
  proposed id hash box hb := by cases hb

theorem openOf_delete (p : Address) (box : VoteBox) : openOf p box.delete = openOf p box := rfl

theorem Round.openCount_delete {id : Hash} (hb : r.box? id hash = some box) (p : Address) :
    (r.setBox id hash box.delete).openCount p = r.openCount p := by
  have hs := Round.sumBoxes_setBox (f := openOf p) hb box.delete
  rw [openOf_delete] at hs
  unfold Round.openCount
  omega

theorem SlotsOK.ended {id : Hash} (h : SlotsOK cfg r) (hb : r.box? id hash = some box) :
    SlotsOK cfg (r.setBox id hash box.delete) := by
  refine ⟨fun p => ?_, h.cap, h.limit, h.registered, Round.forall_setBox h.proposed ?_⟩
  · rw [Round.openCount_delete hb]; exact h.held p
  · exact ⟨(h.proposed _ _ _ hb).voter, fun hd => (nomatch hd), fun hd => (nomatch hd)⟩

end Preservation

/-! ## Every run -/

section Runs

variable (dep : Deps) (cyc : CyclicPkg) (cfg : Config)

/-- Every box that `startVoteBox` opens in the step records its first vote. -/
def FirstVotes : State cyc → Event → Prop
  | s, .castVote n clock => ∀ c r, s.entered[n]? = some c → s.storage.rounds[c.round]? = some r →
      ¬ Leak dep cfg r c.hash c.call clock
  | _, _ => True

variable {dep cyc cfg}

theorem slotsOK_of_reach {s : State cyc} (h : Lts.Reach (system dep cyc cfg) Lts.Free s) :
    ∀ r ∈ s.storage.rounds, SlotsOK cfg r := by
  refine round_invariant (Q := fun _ => True) (fun _ _ _ => trivial) (SlotsOK cfg) SlotsOK.created ?_ ?_ ?_ h
  · rintro r _ ⟨⟩ hr
    exact ⟨hr.held, hr.cap, hr.limit, hr.registered, hr.proposed⟩
  · intro _ _ _ _ _ _ _ _ _ _ _ _ hr hcast
    exact hr.castVote hcast
  · intro r id hash box hr hb _
    exact hr.ended hb

/-- A finalizing vote takes one slot, from the proposer of its box. -/
theorem finalized_release {r r₁ r' : Round} {hash : Hash} {call : Call} {clock : Clock} {box : VoteBox}
    {existsB : Bool} {voted : Voted} (hheld : ∀ p, r.openCount p ≤ r.limiter.pending p)
    (ho : r.openBox dep cfg hash call clock = (r₁, .ok (box, existsB)))
    (hc : r.castVote dep cfg hash call clock = (r', .ok voted)) (hreached : voted.reached = true) :
    0 < r₁.limiter.pending box.proposer ∧
      ∀ a, r'.limiter.pending a = r₁.limiter.pending a - if a = box.proposer then 1 else 0 := by
  cases Round.castVote_cast hc with
  | recorded _ _ hno => rw [hno] at hreached; cases hreached
  | finalized ht hon =>
    obtain ⟨rfl, heq⟩ := Prod.mk.inj (ho.symm.trans ht.openBox)
    obtain ⟨rfl, rfl⟩ := Prod.mk.inj (Except.ok.inj heq)
    have hrec := castOn_ok hon
    refine ⟨(ht.released hheld hrec).1, fun a => ?_⟩
    rw [Round.limiter_finalize, Round.limiter_setBox, Limiter.pending_decrement, hrec.proposer]

theorem scheduleEnd_counts {s s' : State cyc} {k : Key} (h : step dep cyc cfg s (.scheduleEnd k) = some s')
    (i : Nat) (r : Round) (hr : s.storage.rounds[i]? = some r) : ∃ r', s'.storage.rounds[i]? = some r' ∧
      ∀ p, r'.limiter.pending p = r.limiter.pending p ∧ r'.openCount p = r.openCount p := by
  cases step_inv h with
  | @ended _ r₀ box hr₀ hb _ =>
    rw [List.getElem?_set]
    split
    next hi =>
      subst hi
      obtain rfl := Option.some.inj (hr₀.symm.trans hr)
      rw [if_pos (List.getElem?_eq_some_iff.mp hr).1]
      exact ⟨_, rfl, fun p => ⟨rfl, Round.openCount_delete hb p⟩⟩
    next => exact ⟨r, hr, fun _ => ⟨rfl, rfl⟩⟩

theorem openCount_eq_pending {s : State cyc} (h : Lts.Reach (system dep cyc cfg) (FirstVotes dep cyc cfg) s) :
    ∀ r ∈ s.storage.rounds, ∀ p, r.openCount p = r.limiter.pending p := by
  refine round_invariant (Q := fun _ => True) (fun _ _ _ => trivial)
    (fun r => ∀ p, r.openCount p = r.limiter.pending p) ?_ ?_ ?_ ?_ h
  · intro policy p
    simp only [createRound, Limiter.pending_new]
    rfl
  · rintro r _ ⟨⟩ hr
    exact hr
  · intro s n c clock r r' res hok hn hround _ _ hr hcast p
    rcases castVote_counts (fun p => (hr p).le) hcast with hc | ⟨hleak, -⟩
    · have := hc p; have := hr p; omega
    · exact absurd hleak (hok c r hn hround)
  · intro r id hash box hr hb _ p
    rw [Round.openCount_delete hb]
    exact hr p

/-- **The anti-spam bound.** In every round of every run, for every policy
voter: the stored boxes it proposed that are not finalized are at most its
pending count, which is at most the cap; and they are as many, as long as
every box that was opened recorded its first vote. A box's proposer is a
policy voter and, until the box is deleted, has its vote number zero. A vote
that finalizes a box takes exactly one slot from exactly the box's proposer,
who has one. The end of a box changes no count. -/
theorem pending_bounds_open_boxes (s : State cyc) (h : Lts.Reach (system dep cyc cfg) Lts.Free s) :
    (∀ r ∈ s.storage.rounds, ∀ p ∈ r.policy.voters.voters,
      r.openCount p ≤ r.limiter.pending p ∧ r.limiter.pending p ≤ cfg.maxPendingRequests ∧
      (Lts.Reach (system dep cyc cfg) (FirstVotes dep cyc cfg) s → r.openCount p = r.limiter.pending p)) ∧
    (∀ r ∈ s.storage.rounds, ∀ id hash box, r.box? id hash = some box →
      box.proposer ∈ r.policy.voters.voters ∧
      (box.deleted = false → (∃ v, box.votes.get? box.proposer = some v ∧ v.sequence = 0) ∧
        ∀ a v, box.votes.get? a = some v → v.sequence = 0 → a = box.proposer)) ∧
    (∀ r ∈ s.storage.rounds, ∀ hash call clock r₁ box existsB r' voted,
      r.openBox dep cfg hash call clock = (r₁, .ok (box, existsB)) →
      r.castVote dep cfg hash call clock = (r', .ok voted) → voted.reached = true →
      0 < r₁.limiter.pending box.proposer ∧
        ∀ a, r'.limiter.pending a = r₁.limiter.pending a - if a = box.proposer then 1 else 0) ∧
    (∀ k s', step dep cyc cfg s (.scheduleEnd k) = some s' → ∀ (i : Nat) (r : Round), s.storage.rounds[i]? = some r →
      ∃ r', s'.storage.rounds[i]? = some r' ∧
        ∀ p, r'.limiter.pending p = r.limiter.pending p ∧ r'.openCount p = r.openCount p) := by
  have hok := slotsOK_of_reach h
  refine ⟨fun r hr p _ => ⟨(hok r hr).held p, (hok r hr).cap p, fun hfirst => openCount_eq_pending hfirst r hr p⟩,
    fun r hr id hash box hb => ?_, fun r hr hash call clock r₁ box existsB r' voted ho hc hreached => ?_,
    fun k s' hs i r hr => ?_⟩
  · have hp := (hok r hr).proposed id hash box hb
    refine ⟨hp.voter, fun hd => ⟨?_, fun a v hv => (hp.first hd a v hv).mp⟩⟩
    obtain ⟨v, hv⟩ := hp.voted hd
    exact ⟨v, hv, (hp.first hd _ v hv).mpr rfl⟩
  · exact finalized_release (hok r hr).held ho hc hreached
  · exact scheduleEnd_counts hs i r hr

end Runs

/-- A voter's call has found its round. -/
def oneEntered : State .slots :=
  ((system plainDeps .slots plainConfig).run (start .slots plainConfig)
    [.storeNewRound (twoVoters 7), .addVote (plainCall 7 1 5 1 [1])]).get rfl

/-- The voter opens a box and its vote is recorded. -/
theorem pending_bounds_open_boxes_oneEntered :
    ∃ s, Lts.Reach (system plainDeps .slots plainConfig) (FirstVotes plainDeps .slots plainConfig) s ∧
      ∃ r ∈ s.storage.rounds, (1 : Address) ∈ r.policy.voters.voters ∧ r.openCount 1 = 1 ∧
        r.openCount 1 = r.limiter.pending 1 ∧ r.limiter.pending 1 ≤ plainConfig.maxPendingRequests := by
  have h₁ : Lts.Reach (system plainDeps .slots plainConfig) (FirstVotes plainDeps .slots plainConfig) oneEntered := by
    refine .of_run (.init rfl) (fun e he s => ?_) (Option.some_get _).symm
    simp only [List.mem_cons, List.not_mem_nil, or_false] at he
    rcases he with rfl | rfl <;> trivial
  have hfirst : FirstVotes plainDeps .slots plainConfig oneEntered (.castVote 0 (clockAt 100)) := by
    rintro c r hc hr ⟨-, r', e, he⟩
    cases hc
    cases hr
    cases he
  have h₂ := h₁.step hfirst (Option.some_get rfl).symm
  have hb := (pending_bounds_open_boxes _ h₂.free).1 _ List.mem_cons_self 1 (by decide)
  exact ⟨_, h₂, _, List.mem_cons_self, by decide, rfl, hb.2.2 h₂, hb.2.1⟩

end TeeProxy.Voting
