/-
The locks of a round do not deadlock.

All calls take them in one order: `round.Voting`, then a `voteBoxes`, then a
`voteBox`; the first may be released before the second is taken, which does
no harm. So a goroutine that waits while it holds a lock waits for one of a
higher level, and `RwMutex.no_deadlock` applies. What it needs from the
heap is that a goroutine past its locks finds the objects it points to.
-/
import TeeProxy.Voting.Locks
import TeeProxy.Voting.Storage

namespace TeeProxy.Voting.Locks

open RwMutex (Stance Unclaimed Unheld)

/-- The level of a lock. -/
def rank : Lock → Nat
  | .voting => 0
  | .boxes _ => 1
  | .box _ => 2

/-- A `scheduleEnd` before the end time of its box. -/
def Thread.asleep : Thread → Bool
  | .scheduleEnd _ _ _ _ .sleeping => true
  | _ => false

/-- The lock a goroutine is at, and whether it has announced a write there. -/
def Thread.waits : Thread → Option (Lock × Bool)
  | .addVote _ _ (.wantVoting announced) => some (.voting, announced)
  | .addVote _ _ (.wantBoxes ref announced) => some (.boxes ref, announced)
  | .addVote _ _ (.wantBox _ b announced) => some (.box b, announced)
  | .scheduleEnd _ _ ref _ .wantBoxes => some (.boxes ref, false)
  | .scheduleEnd _ _ _ b (.wantBox announced) => some (.box b, announced)
  | .statuses _ .wantVoting => some (.voting, false)
  | .statuses _ (.wantBoxes ref) => some (.boxes ref, false)
  | .statuses _ (.wantBox _ b _) => some (.box b, false)
  | _ => none

/-- The lock lets the goroutine on. -/
def Free (stances : List (Stance Lock)) : Lock × Bool → Prop
  | (l, true) => Unheld stances l
  | (l, false) => Unclaimed stances l

/-- The goroutine at `n` can take its next step. -/
def Enabled (dep : Deps) (cfg : Config) (policy : SigningPolicy) (s : State) (n : Nat) : Prop :=
  (step dep cfg policy s (.run n)).isSome ∨ ∃ k, (step dep cfg policy s (.pick n k)).isSome

variable {dep : Deps} {cfg : Config} {policy : SigningPolicy} {s : State} {n : Nat} {t : Thread} {l : Lock}

/-! ## A goroutine and its locks -/

theorem Thread.announced_iff : t.stance.announced = some l ↔ t.waits = some (l, true) := by
  unfold Thread.stance
  split
  next pc => cases pc <;> simp [VotePc.stance, Thread.waits, announce, Stance.idle, and_comm]
  next pc => cases pc <;> simp [EndPc.stance, Thread.waits, announce, Stance.idle, and_comm]
  next pc => cases pc <;> simp [StatusPc.stance, Thread.waits, Stance.idle]

/-- **The order of the locks.** -/
theorem Thread.rank_lt {l' : Lock} {announced : Bool} (hh : t.stance.holds l)
    (hw : t.waits = some (l', announced)) : rank l < rank l' := by
  unfold Thread.waits at hw
  split at hw <;> cases hw <;>
    simp [Thread.stance, VotePc.stance, EndPc.stance, StatusPc.stance, Stance.idle, Stance.holds] at hh
  all_goals
    subst hh
    exact Nat.lt_succ_self 1

theorem Thread.unfinished_of_waits {w : Lock × Bool} (hw : t.waits = some w) :
    t.finished = false ∧ t.asleep = false := by
  unfold Thread.waits at hw
  split at hw <;> cases hw <;> exact ⟨rfl, rfl⟩

theorem Thread.stance_finished (h : t.finished = true) : t.stance = .idle := by
  unfold Thread.finished at h
  split at h <;> first | rfl | cases h

theorem Thread.stance_asleep (h : t.asleep = true) : t.stance = .idle := by
  unfold Thread.asleep at h
  split at h <;> first | rfl | cases h

theorem Thread.unfinished_of_holds (hh : t.stance.holds l) : t.finished = false ∧ t.asleep = false := by
  refine ⟨Bool.not_eq_true _ ▸ fun hf => ?_, Bool.not_eq_true _ ▸ fun ha => ?_⟩
  · exact Stance.not_holds_idle l (stance_finished hf ▸ hh)
  · exact Stance.not_holds_idle l (stance_asleep ha ▸ hh)

/-! ## A goroutine that does not wait goes on -/

theorem Enabled.of_vote {a : Arg} {against : List Nat} {pc : VotePc}
    (hn : s.threads[n]? = some (.addVote a against pc))
    (h : (stepVote dep cfg policy s n a against pc).isSome) : Enabled dep cfg policy s n := by
  refine .inl ?_
  simp only [step, hn]
  exact h

theorem Enabled.of_end {id hash : Hash} {ref b : Nat} {pc : EndPc}
    (hn : s.threads[n]? = some (.scheduleEnd id hash ref b pc))
    (h : (stepEnd dep s n id hash ref b pc).isSome) : Enabled dep cfg policy s n := by
  refine .inl ?_
  simp only [step, hn]
  exact h

theorem Enabled.of_statuses {id : Hash} {pc : StatusPc} (hn : s.threads[n]? = some (.statuses id pc))
    (h : (stepStatuses s n id pc).isSome) : Enabled dep cfg policy s n := by
  refine .inl ?_
  simp only [step, hn]
  exact h

theorem isSome_guard {P : Prop} [Decidable P] {x : State} (hp : P) : (if P then some x else none).isSome := by
  rw [if_pos hp]
  rfl

theorem enabled_vote {a : Arg} {against : List Nat} {pc : VotePc} (hn : s.threads[n]? = some (.addVote a against pc))
    (hk : pc.Knows dep cfg policy s.heap a) (hun : (Thread.addVote a against pc).finished = false)
    (hfree : ∀ w, (Thread.addVote a against pc).waits = some w → Free s.stances w) : Enabled dep cfg policy s n := by
  refine .of_vote hn ?_
  cases pc with
  | wantVoting announced | wantBoxes ref announced | wantBox ref b announced =>
    have hfree := hfree _ rfl
    cases announced <;> exact isSome_guard hfree
  | heldVoting | heldBoxes | reserved | opened =>
    simp only [stepVote]
    repeat' split
    all_goals rfl
  | heldBox ref b =>
    obtain ⟨⟨c, hc, -⟩, d, hd, -⟩ := hk
    simp only [stepVote, hc, hd]
    rfl
  | unlockBox | unlockBoxes | unlockVoting => rfl
  | returned => cases hun

theorem enabled_end {id hash : Hash} {ref b : Nat} {pc : EndPc}
    (hn : s.threads[n]? = some (.scheduleEnd id hash ref b pc))
    (hk : s.heap.IsFor ref id ∧ s.heap.IsBox b id hash)
    (hun : (Thread.scheduleEnd id hash ref b pc).finished = false)
    (hfree : ∀ w, (Thread.scheduleEnd id hash ref b pc).waits = some w → Free s.stances w) :
    Enabled dep cfg policy s n := by
  refine .of_end hn ?_
  cases pc with
  | wantBoxes => exact isSome_guard (hfree _ rfl)
  | wantBox announced =>
    have hfree := hfree _ rfl
    cases announced <;> exact isSome_guard hfree
  | heldBox =>
    obtain ⟨⟨c, hc, -⟩, d, hd, -⟩ := hk
    simp only [stepEnd, hc, hd]
    rfl
  | sleeping | unlockBox | unlockBoxes => rfl
  | cancelled | returned => cases hun

theorem enabled_statuses {id : Hash} {pc : StatusPc} (hn : s.threads[n]? = some (.statuses id pc))
    (hk : pc.Knows s.heap id) (hun : (Thread.statuses id pc).finished = false)
    (hfree : ∀ w, (Thread.statuses id pc).waits = some w → Free s.stances w) : Enabled dep cfg policy s n := by
  cases pc with
  | wantVoting | wantBox => exact .of_statuses hn (isSome_guard (hfree _ rfl))
  | wantBoxes ref =>
    obtain ⟨c, hc, -⟩ := hk
    refine .of_statuses hn ?_
    simp only [stepStatuses, hc]
    exact isSome_guard (hfree _ rfl)
  | heldVoting =>
    refine .of_statuses hn ?_
    simp only [stepStatuses]
    split <;> rfl
  | reading ref todo =>
    cases todo with
    | nil => exact .of_statuses hn rfl
    | cons b todo =>
      refine .inr ⟨0, ?_⟩
      simp only [step, hn]
      rfl
  | readingBox => exact .of_statuses hn rfl
  | returned => cases hun

theorem enabled_of_free (hn : s.threads[n]? = some t) (hk : t.Knows dep cfg policy s.heap)
    (hun : t.finished = false) (hfree : ∀ w, t.waits = some w → Free s.stances w) : Enabled dep cfg policy s n := by
  cases t with
  | addVote => exact enabled_vote hn hk hun hfree
  | scheduleEnd => exact enabled_end hn hk hun hfree
  | statuses => exact enabled_statuses hn hk hun hfree

/-! ## No deadlock -/

/-- A lock that keeps a goroutine out is held, or, for one that has not
announced a write, has an announced writer. -/
theorem blocked {w : Lock × Bool} (h : ¬ Free s.stances w) :
    (∃ (j : Nat) (st : Stance Lock), s.stances[j]? = some st ∧ st.holds w.1) ∨
      w.2 = false ∧ ∃ (j : Nat) (st : Stance Lock), s.stances[j]? = some st ∧ st.announced = some w.1 := by
  obtain ⟨l, announced⟩ := w
  cases announced with
  | true =>
    simp only [Free, Unheld, not_forall, not_not] at h
    obtain ⟨st, hst, hh⟩ := h
    obtain ⟨j, hj⟩ := List.getElem?_of_mem hst
    exact .inl ⟨j, st, hj, hh⟩
  | false =>
    simp only [Free, Unclaimed, not_forall, not_not] at h
    obtain ⟨st, hst, hw⟩ := h
    obtain ⟨j, hj⟩ := List.getElem?_of_mem hst
    rcases hw with hw | ha
    · exact .inl ⟨j, st, hj, .inr hw⟩
    · exact .inr ⟨rfl, j, st, hj, ha⟩

/-- Where every goroutine that is awake is stuck, none is. -/
theorem Guarded.not_stuck (hg : Guarded dep cfg policy s)
    (hstuck : ∀ (m : Nat) (u : Thread), s.threads[m]? = some u → u.finished = false → u.asleep = false →
      ¬ Enabled dep cfg policy s m) (hn : s.threads[n]? = some t) (hun : t.finished = false) : t.asleep = true := by
  have hkept : ∀ (m : Nat) (u : Thread), s.threads[m]? = some u → u.finished = false → u.asleep = false →
      ∃ w, u.waits = some w ∧ ¬ Free s.stances w := by
    intro m u hm huf hua
    by_contra hno
    refine hstuck m u hm huf hua (enabled_of_free hm (hg.knows m u hm) huf fun w hw => ?_)
    by_contra hfree
    exact hno ⟨w, hw, hfree⟩
  have hstance : ∀ (m : Nat) (st : Stance Lock), s.stances[m]? = some st →
      ∃ u, s.threads[m]? = some u ∧ u.stance = st := by
    intro m st hm
    rw [State.stances, List.getElem?_map] at hm
    exact Option.map_eq_some_iff.mp hm
  let waits (m : Nat) : Option Lock := s.threads[m]?.bind fun u => u.waits.map (·.1)
  have hwaits : ∀ (m : Nat) (u : Thread) (w : Lock × Bool), s.threads[m]? = some u → u.waits = some w →
      waits m = some w.1 := by
    intro m u w hm hw
    simp [waits, hm, hw]
  have hnone := @RwMutex.no_deadlock Lock s.stances rank 2 ?_ waits ?_ ?_ ?_
  · by_contra hawake
    obtain ⟨w, hw, -⟩ := hkept n t hn hun (Bool.not_eq_true _ ▸ hawake)
    have := hwaits n t w hn hw
    rw [hnone n] at this
    cases this
  · intro l
    cases l <;> simp [rank]
  · intro m l hm
    simp only [waits, Option.bind_eq_some_iff, Option.map_eq_some_iff] at hm
    obtain ⟨u, hu, w, hw, rfl⟩ := hm
    obtain ⟨huf, hua⟩ := Thread.unfinished_of_waits hw
    obtain ⟨w', hw', hfree⟩ := hkept m u hu huf hua
    obtain rfl : w = w' := Option.some.inj (hw.symm.trans hw')
    rcases blocked hfree with hheld | ⟨hann, hother⟩
    · exact .inl hheld
    · refine .inr ⟨hother, fun st hst ha => ?_⟩
      obtain ⟨u', hu', rfl⟩ := hstance m st hst
      obtain rfl : u = u' := Option.some.inj (hu.symm.trans hu')
      rw [Thread.announced_iff, hw, Option.some.injEq] at ha
      rw [ha] at hann
      cases hann
  · intro m st l hm hh
    obtain ⟨u, hu, rfl⟩ := hstance m st hm
    obtain ⟨huf, hua⟩ := Thread.unfinished_of_holds hh
    obtain ⟨w, hw, -⟩ := hkept m u hu huf hua
    exact ⟨w.1, hwaits m u w hu hw, Thread.rank_lt hh hw⟩
  · intro m st l hm ha
    obtain ⟨u, hu, rfl⟩ := hstance m st hm
    exact hwaits m u _ hu (Thread.announced_iff.mp ha)

/-- **No deadlock.** Wherever a call is not finished, one that is not
finished can go on; where it is not asleep, one that is not asleep can. -/
theorem voting_locks_progress (hr : Lts.Reach (system dep cfg policy) Lts.Free s) (hn : s.threads[n]? = some t)
    (hun : t.finished = false) :
    ∃ (m : Nat) (u : Thread), s.threads[m]? = some u ∧ u.finished = false ∧ Enabled dep cfg policy s m ∧
      (t.asleep = false → u.asleep = false) := by
  have hg := guarded hr
  cases ha : t.asleep with
  | true =>
    refine ⟨n, t, hn, hun, enabled_of_free hn (hg.knows n t hn) hun fun w hw => ?_, fun h => by cases h⟩
    have := (Thread.unfinished_of_waits hw).2
    rw [ha] at this
    cases this
  | false =>
    by_contra hno
    have := hg.not_stuck (fun m u hm huf hua hen => hno ⟨m, u, hm, huf, hen, fun _ => hua⟩) hn hun
    rw [ha] at this
    cases this

/-- A vote has opened a box. A second vote has announced its write on the
`voteBoxes`, a `Statuses` reads the box, and the `scheduleEnd` has been
woken. -/
def queued : List Event :=
  .addVote ⟨6, plainCall 7 1 5 1 [1], clockAt 100⟩ :: List.replicate 9 (.run 0) ++
    [.addVote ⟨6, plainCall 7 1 5 2 [2], clockAt 101⟩, .statuses 1, .run 3, .run 3, .run 3, .pick 3 0, .run 3,
      .run 2, .run 2, .run 2, .run 2, .run 1]

/-- The vote waits for the reader and the `scheduleEnd` behind the vote; the
reader can go on. -/
theorem voting_locks_progress_queued :
    ∃ s, Lts.Reach (system plainDeps plainConfig (twoVoters 7)) Lts.Free s ∧
      step plainDeps plainConfig (twoVoters 7) s (.run 1) = none ∧
      step plainDeps plainConfig (twoVoters 7) s (.run 2) = none ∧
      ∃ (m : Nat) (u : Thread), s.threads[m]? = some u ∧ u.finished = false ∧
        Enabled plainDeps plainConfig (twoVoters 7) s m := by
  have hrun : ((system plainDeps plainConfig (twoVoters 7)).run (start plainConfig (twoVoters 7)) queued).any fun s =>
      (step plainDeps plainConfig (twoVoters 7) s (.run 1)).isNone &&
      (step plainDeps plainConfig (twoVoters 7) s (.run 2)).isNone &&
      s.threads[1]?.any fun t => !t.finished := by decide +kernel
  obtain ⟨s, hs, hend⟩ := (Option.any_eq_true _ _).mp hrun
  simp only [Bool.and_eq_true, Option.isNone_iff_eq_none] at hend
  obtain ⟨⟨hend₁, hend₂⟩, hend₃⟩ := hend
  obtain ⟨t, ht, hun⟩ := (Option.any_eq_true _ _).mp hend₃
  have hreach : Lts.Reach (system plainDeps plainConfig (twoVoters 7)) Lts.Free s :=
    .of_run (.init rfl) (fun _ _ _ => trivial) hs
  obtain ⟨m, u, hm, huf, hen, -⟩ := voting_locks_progress hreach ht (by simpa using hun)
  exact ⟨s, hreach, hend₁, hend₂, m, u, hm, huf, hen⟩

end TeeProxy.Voting.Locks
