/-
What a vote does to the boxes of its ID, computed in two places: by the
critical section of a `Round`, and step by step under the locks
(`Locks.voteEffect`). Here the first is expressed by the second, so that the
two can be compared without opening either again.

A vote that opens a box reserves a slot of the limiter before it builds the
box, and gives the slot back when the box cannot be built or is finalized by
its first vote. In between, the limiter counts slots that a critical section
run in one go would have given back: `Limiter.Ahead`.
-/
import TeeProxy.Voting.Locks
import TeeProxy.Voting.Slots

namespace TeeProxy.Voting

/-! ## Views -/

theorem View.put_self {v : View} {hash : Hash} {box : VoteBox} (h : v.box? hash = some box) :
    v.put hash box v.finalizedHash = v := by
  refine View.ext (funext fun x => ?_) rfl
  simp only [View.put]
  split
  next heq => rw [heq, h]
  next => rfl

namespace Round

variable {r : Round} {id id' hash : Hash} {box : VoteBox}

@[simp] theorem view_limiter (l : Limiter) : ({ r with limiter := l } : Round).view id = r.view id := rfl

theorem view_setBox (r : Round) (id hash : Hash) (box : VoteBox) (id' : Hash) :
    (r.setBox id hash box).view id' =
      if id' = id then (r.view id).put hash box (r.finalizedHash id) else r.view id' := by
  refine View.of_lookups (box?_setBox r id hash box) (fun id' => ?_) id'
  rw [finalizedHash_setBox]
  split
  next heq => rw [heq]
  next => rfl

/-- A finalized hash is written into the view of its ID. -/
theorem view_finalize (dep : Deps) (call : Call) (voted : Voted) (r : Round) (hash : Hash) (box : VoteBox)
    (id' : Hash) :
    (r.finalize dep hash call box voted).1.view id' =
      if id' = call.data.instructionID then ⟨r.box? id',
        if isRestore dep call.data.opType call.data.opCommand = false ∧ r.finalizedHash id' = 0 then hash
        else r.finalizedHash id'⟩
      else r.view id' := by
  have hbox : (r.finalize dep hash call box voted).1.box? id' = r.box? id' := funext fun _ =>
    box?_finalize dep call voted
  simp only [view, hbox, finalizedHash_finalize]
  by_cases hid : id' = call.data.instructionID
  · simp [hid]
  · simp [hid]

end Round

namespace Locks

variable {dep : Deps} {cfg : Config} {policy : SigningPolicy} {a : Arg} {existsB : Bool} {box box' : VoteBox}
  {fin fin' : Hash} {res : Except VoteErr Voted}

/-! ## The effect of a vote -/

theorem voteEffect_ended (hd : box.deleted = true) :
    voteEffect dep policy a existsB box fin = (box, fin, .error .votingEnded) := by
  rw [voteEffect, if_pos hd]

theorem voteEffect_rejected {e : VoteErr} (hd : box.deleted = false)
    (hc : castOn dep policy a.call a.clock box = (box', .error e)) :
    voteEffect dep policy a existsB box fin = (box', fin, .error (.addingVote a.call.signer a.id e)) := by
  rw [voteEffect, if_neg (by simp [hd]), hc]

theorem voteEffect_taken {receipt : Receipt} {reached : Bool} (hd : box.deleted = false)
    (hc : castOn dep policy a.call a.clock box = (box', .ok (receipt, reached))) :
    ∃ voted, voteEffect dep policy a existsB box fin = (box',
        if reached && !isRestore dep a.call.data.opType a.call.data.opCommand then
          (if fin = 0 then a.hash else fin) else fin, .ok voted) ∧
      voted.receipt = receipt ∧ voted.reached = reached := by
  simp only [voteEffect, hd, hc, Bool.false_eq_true, if_false]
  cases box'.action dep .threshold <;> split <;> exact ⟨_, rfl, rfl, rfl⟩

theorem voteEffect_cases (h : voteEffect dep policy a existsB box fin = (box', fin', res)) :
    (∃ e, res = .error e ∧ fin' = fin ∧ (box' = box ∨ ∃ voteHash, box' = { box with voteHash })) ∨
      ∃ voted, res = .ok voted ∧ box.deleted = false ∧
        castOn dep policy a.call a.clock box = (box', .ok (voted.receipt, voted.reached)) := by
  by_cases hd : box.deleted = true
  · rw [voteEffect_ended hd] at h
    cases h
    exact .inl ⟨_, rfl, rfl, .inl rfl⟩
  · rw [Bool.not_eq_true] at hd
    rcases hc : castOn dep policy a.call a.clock box with ⟨b, e | ⟨receipt, reached⟩⟩
    · rw [voteEffect_rejected hd hc] at h
      cases h
      exact .inl ⟨_, rfl, rfl, .inr (VoteBox.addVote_error hc)⟩
    · obtain ⟨voted, heff, rfl, rfl⟩ : ∃ voted, voteEffect dep policy a existsB box fin = (b, _, .ok voted) ∧ _ :=
        voteEffect_taken hd hc
      rw [heff] at h
      cases h
      exact .inr ⟨voted, rfl, hd, rfl⟩

theorem voteEffect_proposer (h : voteEffect dep policy a existsB box fin = (box', fin', res)) :
    box'.proposer = box.proposer := by
  rcases voteEffect_cases h with ⟨-, -, -, rfl | ⟨_, rfl⟩⟩ | ⟨_, -, -, hc⟩
  · rfl
  · rfl
  · exact (castOn_ok hc).proposer

/-- Whether a vote finalizes its box does not depend on the other boxes. -/
theorem releases_voteEffect (fin fin' : Hash) :
    releases (voteEffect dep policy a existsB box fin).2.2 =
      releases (voteEffect dep policy a existsB box fin').2.2 := by
  cases hd : box.deleted with
  | true => rw [voteEffect_ended hd, voteEffect_ended hd]
  | false =>
    rcases hc : castOn dep policy a.call a.clock box with ⟨b, e | ⟨receipt, reached⟩⟩
    · rw [voteEffect_rejected hd hc, voteEffect_rejected hd hc]
    · obtain ⟨voted, heff, -, hreached⟩ : ∃ voted, voteEffect dep policy a existsB box fin = (b, _, .ok voted) ∧ _ :=
        voteEffect_taken hd hc
      obtain ⟨voted', heff', -, hreached'⟩ :
          ∃ voted, voteEffect dep policy a existsB box fin' = (b, _, .ok voted) ∧ _ :=
        voteEffect_taken hd hc
      rw [heff, heff']
      exact hreached.trans hreached'.symm

/-! ## The critical section -/

/-- What a critical section did: the view of one ID, and the limiter. -/
structure Effected (r : Round) (id : Hash) (v : View) (limiter : Limiter) (r' : Round) : Prop where
  policy : r'.policy = r.policy
  limiter : r'.limiter = limiter
  view : ∀ id', r'.view id' = if id' = id then v else r.view id'

variable {r : Round}

theorem Effected.same (r : Round) (id : Hash) (limiter : Limiter) :
    Effected r id (r.view id) limiter { r with limiter } := by
  refine ⟨rfl, rfl, fun id' => ?_⟩
  split
  next heq => rw [heq, Round.view_limiter]
  next => rw [Round.view_limiter]

theorem finalize_snd (dep : Deps) (r : Round) (hash : Hash) (call : Call) (box : VoteBox) (voted : Voted) :
    (r.finalize dep hash call box voted).2 =
      if isRestore dep call.data.opType call.data.opCommand then voted
      else match box.action dep .threshold with
        | .error _ => { voted with buildErr := true }
        | .ok action => { voted with actionToSend := some action } := by
  unfold Round.finalize
  dsimp only
  split
  · rfl
  · cases box.action dep .threshold <;> rfl

/-- A box that was finalized is stored, its ID has a finalized hash, and its
slot is given back. -/
theorem finalize_effected (dep : Deps) (r : Round) (a : Arg) (box : VoteBox) (voted : Voted) :
    Effected r a.id
      ((r.view a.id).put a.hash box
        (if isRestore dep a.call.data.opType a.call.data.opCommand = false then
          (if r.finalizedHash a.id = 0 then a.hash else r.finalizedHash a.id) else r.finalizedHash a.id))
      (r.limiter.decrement box.proposer) ((r.setBox a.id a.hash box).finalize dep a.hash a.call box voted).1 := by
  refine ⟨Round.policy_finalize dep a.call voted, Round.limiter_finalize dep a.call voted, fun id' => ?_⟩
  rw [Round.view_finalize]
  split
  next heq =>
    obtain rfl : id' = a.id := heq
    rw [if_pos rfl]
    refine View.ext (funext fun x => ?_) ?_
    · simp [View.put, Round.view, Round.box?_setBox]
    · simp only [View.put, Round.finalizedHash_setBox]
      split_ifs <;> tauto
  next hne =>
    rw [Round.view_setBox, if_neg (by exact hne), if_neg (by exact hne)]

/-- The vote goes to the box: what it does is its effect, stored unless the
box is new and did not take it. -/
theorem voteOn_effected (hstored : existsB = true → r.box? a.id a.hash = some box)
    (he : voteEffect dep r.policy a existsB box (r.finalizedHash a.id) = (box', fin, res)) :
    ∃ r', r.voteOn dep a.hash a.call a.clock box existsB = (r', res) ∧
      Effected r a.id (if existsB || res.isOk then (r.view a.id).put a.hash box' fin else r.view a.id)
        (if releases res then r.limiter.decrement box'.proposer else r.limiter) r' := by
  cases hd : box.deleted with
  | true =>
    rw [voteEffect_ended hd] at he
    cases he
    refine ⟨r, by simp [Round.voteOn, Round.recordVote, hd], ?_⟩
    cases existsB with
    | true =>
      have hput : (r.view a.id).put a.hash box (r.finalizedHash a.id) = r.view a.id := View.put_self (hstored rfl)
      rw [Bool.true_or, if_pos rfl, hput]
      exact .same r a.id r.limiter
    | false => exact .same r a.id r.limiter
  | false =>
    rcases hc : castOn dep r.policy a.call a.clock box with ⟨b, e | ⟨receipt, reached⟩⟩
    · rw [voteEffect_rejected hd hc] at he
      cases he
      refine ⟨if existsB then r.setBox a.id a.hash box' else r,
        by simp [Round.voteOn, Round.recordVote_open existsB hd, hc, Arg.id], ?_⟩
      cases existsB with
      | true => exact ⟨rfl, rfl, Round.view_setBox r a.id a.hash box'⟩
      | false => exact .same r a.id r.limiter
    · cases reached with
      | false =>
        simp only [voteEffect, hd, hc, Bool.false_eq_true, if_false, Bool.false_and] at he
        cases he
        exact ⟨r.setBox a.id a.hash box', by simp [Round.voteOn, Round.recordVote_open existsB hd, hc, Arg.id],
          rfl, rfl, by simpa [Except.isOk, Except.toBool] using Round.view_setBox r a.id a.hash box'⟩
      | true =>
        let voted : Voted := ⟨receipt, (voterGroupCheck a.call.signer r.policy.voters.voterDataMap
          box.proposal.cosigners).1.isProvider, b.weight, !existsB, true, false, none⟩
        have hvote : r.voteOn dep a.hash a.call a.clock box existsB =
            (((r.setBox a.id a.hash b).finalize dep a.hash a.call b voted).1,
              .ok ((r.setBox a.id a.hash b).finalize dep a.hash a.call b voted).2) := by
          simp [Round.voteOn, Round.recordVote_open existsB hd, hc, Arg.id, voted]
        have hreached : ((r.setBox a.id a.hash b).finalize dep a.hash a.call b voted).2.reached = true :=
          Round.reached_finalize dep a.call voted
        have hfin : voteEffect dep r.policy a existsB box (r.finalizedHash a.id) = (b,
            if isRestore dep a.call.data.opType a.call.data.opCommand = false then
              (if r.finalizedHash a.id = 0 then a.hash else r.finalizedHash a.id) else r.finalizedHash a.id,
            .ok ((r.setBox a.id a.hash b).finalize dep a.hash a.call b voted).2) := by
          rw [finalize_snd]
          simp only [voteEffect, hd, hc, Bool.false_eq_true, if_false, Bool.true_and]
          cases isRestore dep a.call.data.opType a.call.data.opCommand with
          | true => rfl
          | false => cases b.action dep .threshold <;> rfl
        rw [hfin] at he
        cases he
        refine ⟨_, hvote, ?_⟩
        simpa [Except.isOk, Except.toBool, releases, hreached] using finalize_effected dep r a box' voted

/-! ## A vote on a box that is there, and one that opens a box -/

theorem castVote_early (hno : r.box? a.id a.hash = none) (hearly : Early a) :
    r.castVote dep cfg a.hash a.call a.clock = (r, .error .votingBeforeEvent) := by
  have hno : r.box? a.call.data.instructionID a.hash = none := hno
  have hearly : a.clock.start.before ((GoTime.unix a.call.data.timestamp).add (-eventFutureSlack)) = true := hearly
  simp [Round.castVote, Round.openBox, startVoteBox, hno, hearly]

theorem castVote_full {e : LimiterErr} (hno : r.box? a.id a.hash = none) (hearly : ¬ Early a)
    (hinc : r.limiter.increment a.call.signer = .error e) :
    r.castVote dep cfg a.hash a.call a.clock = (r, .error (.limiter e)) := by
  have hno : r.box? a.call.data.instructionID a.hash = none := hno
  have hearly : ¬ a.clock.start.before ((GoTime.unix a.call.data.timestamp).add (-eventFutureSlack)) = true := hearly
  simp [Round.castVote, Round.openBox, startVoteBox, hno, hearly, hinc]

theorem castVote_stored (hb : r.box? a.id a.hash = some box)
    (he : voteEffect dep r.policy a true box (r.finalizedHash a.id) = (box', fin, res)) :
    ∃ r', r.castVote dep cfg a.hash a.call a.clock = (r', res) ∧
      Effected r a.id ((r.view a.id).put a.hash box' fin)
        (if releases res then r.limiter.decrement box'.proposer else r.limiter) r' := by
  obtain ⟨r', hvote, heff⟩ := voteOn_effected (fun _ => hb) he
  have hb : r.box? a.call.data.instructionID a.hash = some box := hb
  exact ⟨r', by simp [Round.castVote, Round.openBox, hb, hvote], heff⟩

/-- What the view of an ID becomes by a vote that opens a box, and what the
vote returns. -/
def opening (dep : Deps) (cfg : Config) (policy : SigningPolicy) (a : Arg) (v : View) : View × Except VoteErr Voted :=
  match buildVoteBox dep cfg policy a.call a.clock.build with
  | .error e => (v, .error e)
  | .ok box => match voteEffect dep policy a false box v.finalizedHash with
    | (_, _, .error e) => (v, .error e)
    | (box', finalizedHash, .ok voted) => (v.put a.hash box' finalizedHash, .ok voted)

/-- The slot of a new box is given back: the box cannot be built, or its first
vote finalizes it. -/
def givesBack (dep : Deps) (cfg : Config) (policy : SigningPolicy) (a : Arg) : Bool :=
  match buildVoteBox dep cfg policy a.call a.clock.build with
  | .error _ => true
  | .ok box => releases (voteEffect dep policy a false box 0).2.2

theorem castVote_opening (dep : Deps) (cfg : Config) {l : Limiter} (hno : r.box? a.id a.hash = none)
    (hearly : ¬ Early a)
    (hinc : r.limiter.increment a.call.signer = .ok l) :
    ∃ r', r.castVote dep cfg a.hash a.call a.clock = (r', (opening dep cfg r.policy a (r.view a.id)).2) ∧
      Effected r a.id (opening dep cfg r.policy a (r.view a.id)).1
        (if givesBack dep cfg r.policy a then l.decrement a.call.signer else l) r' := by
  have hno : r.box? a.call.data.instructionID a.hash = none := hno
  have hearly : ¬ a.clock.start.before ((GoTime.unix a.call.data.timestamp).add (-eventFutureSlack)) = true := hearly
  cases hbuild : buildVoteBox dep cfg r.policy a.call a.clock.build with
  | error e =>
    refine ⟨{ r with limiter := l.decrement a.call.signer }, ?_, ?_⟩
    · simp [Round.castVote, Round.openBox, startVoteBox, hno, hearly, hinc, hbuild, opening]
    · simpa [opening, givesBack, hbuild] using Effected.same r a.id (l.decrement a.call.signer)
  | ok box =>
    rcases he : voteEffect dep r.policy a false box (r.finalizedHash a.id) with ⟨box', fin, res⟩
    obtain ⟨r', hvote, heff⟩ := voteOn_effected (r := { r with limiter := l }) (fun h => by cases h) he
    have hcast : r.castVote dep cfg a.hash a.call a.clock = (r', res) := by
      simp [Round.castVote, Round.openBox, startVoteBox, hno, hearly, hinc, hbuild, hvote]
    have hback : givesBack dep cfg r.policy a = releases res := by
      rw [givesBack, hbuild]
      exact (releases_voteEffect 0 (r.finalizedHash a.id)).trans (congrArg (fun x => releases x.2.2) he)
    have hproposer : box'.proposer = a.call.signer :=
      (voteEffect_proposer he).trans (buildVoteBox_ok hbuild).proposer
    have hfin : (r.view a.id).finalizedHash = r.finalizedHash a.id := rfl
    refine ⟨r', hcast.trans ?_, heff.policy, ?_, fun id' => ?_⟩
    · cases res <;> simp [opening, hbuild, hfin, he]
    · rw [heff.limiter, hback, hproposer]
    · rw [heff.view id']
      cases res <;> simp [opening, hbuild, hfin, he, Except.isOk, Except.toBool]

/-! ## The limiter between two steps -/

/-- `x` counts `owed p` slots of `p` that `y` has been given back. -/
structure Ahead (owed : Address → Nat) (x y : Limiter) : Prop where
  cap : y.maxPendingRequests = x.maxPendingRequests
  counter : ∀ p, y.counter.get? p =
    (x.counter.get? p).map fun c => ⟨c.pending - owed p, c.totalProposed, c.totalCompleted + owed p⟩
  held : ∀ p, owed p ≤ x.pending p

namespace Ahead

variable {owed owed' : Address → Nat} {x x' y : Limiter} {p : Address}

theorem refl (h : ∀ p, owed p = 0) (x : Limiter) : Ahead owed x x := by
  refine ⟨rfl, fun p => ?_, fun p => by rw [h p]; exact Nat.zero_le _⟩
  cases hc : x.counter.get? p with
  | none => rfl
  | some c => simp [h p]

theorem congr (h : Ahead owed x y) (howed : ∀ p, owed' p = owed p) : Ahead owed' x y := by
  rw [show owed' = owed from funext howed]
  exact h

theorem eq_of_none (h : Ahead owed x y) (hno : ∀ p, owed p = 0) (p : Address) :
    y.counter.get? p = x.counter.get? p := by
  rw [h.counter p]
  cases hc : x.counter.get? p with
  | none => rfl
  | some c => simp [hno p]

theorem pending (h : Ahead owed x y) (p : Address) : y.pending p = x.pending p - owed p := by
  simp only [Limiter.pending, h.counter p]
  cases x.counter.get? p <;> simp

theorem increment (h : Ahead owed x y) (hx : x.increment p = .ok x') :
    ∃ y', y.increment p = .ok y' ∧ Ahead owed x' y' := by
  obtain ⟨c, hc, hlt, hcap, hget⟩ := Limiter.counter_increment hx
  have hheld := h.held p
  simp only [Limiter.pending, hc, Option.map_some, Option.getD_some] at hheld
  have hy : y.counter.get? p = some ⟨c.pending - owed p, c.totalProposed, c.totalCompleted + owed p⟩ := by
    rw [h.counter p, hc]
    rfl
  have hbelow : y.pending p < y.maxPendingRequests := by
    simp only [Limiter.pending, hy, Option.map_some, Option.getD_some, h.cap]
    omega
  obtain ⟨y', hy'⟩ := Limiter.increment_of_below (GoMap.mem_keys.mpr ⟨_, hy⟩) hbelow
  obtain ⟨d, hd, -, hcap', hget'⟩ := Limiter.counter_increment hy'
  rw [hy, Option.some.injEq] at hd
  subst hd
  refine ⟨y', hy', by rw [hcap', h.cap, hcap], fun q => ?_, fun q => ?_⟩
  · rw [hget', hget]
    split
    next hq =>
      subst hq
      simp only [Option.map_some, Option.some.injEq, LimiterState.mk.injEq, and_true]
      omega
    next => exact h.counter q
  · have hq := h.held q
    rw [(Limiter.increment_ok hx).pending q]
    omega

/-- The limiter that is ahead refuses more only for what it is owed. -/
theorem increment_error {e : LimiterErr} (h : Ahead owed x y) (hx : x.increment p = .error e) :
    y.increment p = .error e ∨ e = .limitReached ∧ 0 < owed p := by
  unfold Limiter.increment at hx
  split at hx
  next hc =>
    have hy : y.counter.get? p = none := by rw [h.counter p, hc]; rfl
    cases hx
    exact .inl (by rw [Limiter.increment, hy])
  next c hc =>
  split at hx
  next hge =>
    cases hx
    by_cases howed : owed p = 0
    · have hy : y.counter.get? p = some c := by rw [h.counter p, hc]; simp [howed]
      have hge : c.pending ≥ y.maxPendingRequests := h.cap ▸ hge
      exact .inl (by rw [Limiter.increment, hy]; exact if_pos hge)
    · exact .inr ⟨rfl, Nat.pos_of_ne_zero howed⟩
  next => cases hx

theorem early (h : Ahead owed x y) (hpos : owed p < x.pending p)
    (howed : ∀ q, owed' q = owed q + if q = p then 1 else 0) : Ahead owed' x (y.decrement p) := by
  refine ⟨(Limiter.cap_decrement y p).trans h.cap, fun q => ?_, fun q => ?_⟩
  · rw [Limiter.counter_decrement, h.counter, howed q]
    split
    next hq =>
      subst hq
      cases hc : x.counter.get? q with
      | none => rfl
      | some c =>
        simp only [Option.map_some, Option.some.injEq, LimiterState.mk.injEq, true_and]
        omega
    next => exact h.counter q
  · have hq := h.held q
    rw [howed q]
    split
    next heq => rw [heq] at hq ⊢; omega
    next => omega

theorem late (h : Ahead owed x y) (howed : ∀ q, owed q = owed' q + if q = p then 1 else 0) :
    Ahead owed' (x.decrement p) y := by
  refine ⟨h.cap.trans (Limiter.cap_decrement x p).symm, fun q => ?_, fun q => ?_⟩
  · rw [Limiter.counter_decrement, h.counter, howed q]
    split
    next hq =>
      subst hq
      cases hc : x.counter.get? q with
      | none => rfl
      | some c =>
        simp only [Option.map_some, Option.some.injEq, LimiterState.mk.injEq, true_and]
        omega
    next => rfl
  · have hq := h.held q
    rw [Limiter.pending_decrement]
    rw [howed q] at hq
    omega

theorem both (h : Ahead owed x y) (hpos : 0 < y.pending p) : Ahead owed (x.decrement p) (y.decrement p) := by
  have hpending := h.pending p
  refine ⟨by rw [Limiter.cap_decrement, Limiter.cap_decrement, h.cap], fun q => ?_, fun q => ?_⟩
  · rw [Limiter.counter_decrement, Limiter.counter_decrement, h.counter]
    split
    next hq =>
      subst hq
      cases hc : x.counter.get? q with
      | none => rfl
      | some c =>
        simp only [Option.map_some, Option.some.injEq, LimiterState.mk.injEq, true_and]
        omega
    next => exact h.counter q
  · have hq := h.held q
    rw [Limiter.pending_decrement]
    split
    next heq => rw [heq] at hq ⊢; omega
    next => omega

end Ahead

end Locks

end TeeProxy.Voting
