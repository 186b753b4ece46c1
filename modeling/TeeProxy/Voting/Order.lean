/-
The order of a box's actions on `Out`. A vote that finalizes a box sends the
threshold action after it has released its locks, and the end of the box is
sent by another goroutine, so the end action can overtake the threshold
action. It does so only where the box ends while the threshold action is
still being sent: a goroutine sends its own actions in order, and nothing is
sent for a box after its end.

`Out` is a channel, so its actions are received in the order in which they
were sent, whatever its buffer holds.
-/
import Mathlib.Data.List.Flatten
import TeeProxy.Voting.Emission

namespace TeeProxy.Voting

/-- `b` may come after `a`. -/
def MayFollow (a b : Action) : Prop := a.data.submissionTag = .end → b.data.submissionTag ≠ .threshold

/-- The actions of a box, sent and still being sent: threshold actions only
until the box has ended; then no threshold action after an end action, and
one goroutine that sends. -/
def OrderOK (out : List Action) (waiting : List (List Action)) : Bool → Prop
  | false => ∀ a ∈ out ++ waiting.flatten, a.data.submissionTag = .threshold
  | true => (out ++ waiting.flatten).Pairwise MayFollow ∧ waiting.length ≤ 1

/-- The box has ended. -/
def Storage.ended {cyc : CyclicPkg} (s : Storage cyc) (k : Key) : Bool := (s.box? k).any (·.deleted)

/-! ## What is given to be sent -/

section Tags

variable {dep : Deps} {box : VoteBox} {tag : SubmissionTag} {fh : Hash}

theorem VoteBox.action_tag {a : Action} (h : box.action dep tag = .ok a) : a.data.submissionTag = tag := by
  unfold VoteBox.action at h
  split at h
  · cases h
  split at h
  · cases h
  split at h
  · cases h
  split at h
  · cases h
  · cases h; rfl

theorem VoteBox.tag_of_mem {a : Action} (h : a ∈ (box.action dep tag).toOption.toList) :
    a.data.submissionTag = tag := by
  cases hact : box.action dep tag with
  | error e => rw [hact] at h; cases h
  | ok b =>
    rw [hact] at h
    cases List.mem_singleton.mp h
    exact action_tag hact

theorem pairwise_of_tag {l : List Action} (h : ∀ a ∈ l, a.data.submissionTag = tag) : l.Pairwise MayFollow := by
  refine List.pairwise_of_forall_mem_list fun a ha b hb hend => ?_
  rw [h b hb, ← h a ha, hend]
  decide

/-- Threshold actions and then actions in order are in order. -/
theorem pairwise_append {l l' : List Action} (h : ∀ a ∈ l, a.data.submissionTag = .threshold)
    (h' : l'.Pairwise MayFollow) : (l ++ l').Pairwise MayFollow := by
  refine List.pairwise_append.mpr ⟨pairwise_of_tag h, h', fun a ha b _ hend => ?_⟩
  rw [h a ha] at hend
  exact absurd hend (by decide)

/-- The end of a box gives a threshold action before an end action. -/
theorem VoteBox.endActions_pairwise : (box.endActions dep fh).Pairwise MayFollow := by
  have hend : (box.action dep .end).toOption.toList.Pairwise MayFollow := pairwise_of_tag fun _ => tag_of_mem
  unfold VoteBox.endActions
  split
  · exact .nil
  split
  · exact .nil
  split
  · exact pairwise_append (fun _ => tag_of_mem) hend
  split
  · exact .nil
  · exact hend

end Tags

/-! ## Steps of one box -/

section Box

variable {out : List Action} {waiting : List (List Action)} {ended : Bool}

theorem OrderOK.pairwise (h : OrderOK out waiting ended) : (out ++ waiting.flatten).Pairwise MayFollow := by
  cases ended with
  | false => exact pairwise_of_tag h
  | true => exact h.1

theorem OrderOK.given (h : OrderOK out waiting false) {as : List Action}
    (has : ∀ a ∈ as, a.data.submissionTag = .threshold) :
    OrderOK out (waiting ++ if as ≠ [] then [as] else []) false := by
  intro a ha
  rw [List.flatten_append, ← List.append_assoc, List.mem_append] at ha
  rcases ha with ha | ha
  · exact h a ha
  · split at ha
    · exact has a (by simpa using ha)
    · cases ha

theorem OrderOK.end (h : OrderOK out [] false) {as : List Action} (has : as.Pairwise MayFollow) :
    OrderOK out (if as ≠ [] then [as] else []) true := by
  rw [OrderOK, List.flatten_nil, List.append_nil] at h
  split
  · refine ⟨?_, Nat.le_refl 1⟩
    rw [List.flatten_singleton]
    exact pairwise_append h has
  · exact ⟨by rw [List.flatten_nil, List.append_nil]; exact pairwise_of_tag h, Nat.zero_le 1⟩

theorem OrderOK.handed {a : Action} {rest : List Action} {w₁ w₂ : List (List Action)}
    (h : OrderOK out (w₁ ++ [a :: rest] ++ w₂) ended) :
    OrderOK (out ++ [a]) (w₁ ++ (if rest = [] then [] else [rest]) ++ w₂) ended := by
  have hrest : (if rest = [] then [] else [rest]).flatten = rest := by
    split
    next hr => rw [hr]; rfl
    next => simp
  cases ended with
  | false =>
    intro b hb
    refine h b ?_
    simp only [List.flatten_append, hrest, List.mem_append, List.flatten_singleton, List.mem_cons] at hb ⊢
    tauto
  | true =>
    -- the goroutine is the only one, so what is sent and to be sent stays the same list
    obtain ⟨hpair, hlen⟩ := h
    simp only [List.length_append, List.length_singleton] at hlen
    obtain rfl : w₁ = [] := List.eq_nil_of_length_eq_zero (by omega)
    obtain rfl : w₂ = [] := List.eq_nil_of_length_eq_zero (by omega)
    refine ⟨?_, by split <;> simp⟩
    simpa [hrest] using hpair

theorem OrderOK.cancelled {waiting' : List (List Action)} (h : OrderOK out waiting ended)
    (hw : waiting'.Sublist waiting) : OrderOK out waiting' ended := by
  have hsub : (out ++ waiting'.flatten).Sublist (out ++ waiting.flatten) := hw.flatten.append_left out
  cases ended with
  | false => exact fun a ha => h a (hsub.subset ha)
  | true => exact ⟨h.1.sublist hsub, hw.length_le.trans h.2⟩

theorem waitingOf_cancel (l : List Sender) (n : Nat) (key k : Key) :
    (waitingOf (l.set n ⟨key, []⟩) k).Sublist (waitingOf l k) := by
  rcases Nat.lt_or_ge n l.length with hn | hn
  · obtain ⟨l₁, l₂, hl, -, hset⟩ : ∃ l₁ l₂, l = l₁ ++ l[n] :: l₂ ∧ l₁.length = n ∧
      l.set n ⟨key, []⟩ = l₁ ++ ⟨key, []⟩ :: l₂ := List.exists_of_set hn
    rw [hset, hl, waitingOf_append, waitingOf_append, waitingOf_cons, waitingOf_cons, if_neg (by simp)]
    exact .append_left (List.sublist_append_right _ _) _
  · rw [List.set_eq_of_length_le hn]

end Box

/-! ## Every run -/

section Runs

variable {dep : Deps} {cyc : CyclicPkg} {cfg : Config} {s s' : State cyc} {k : Key}

/-- The box does not end while an action of it is still being sent. -/
def EndsAfterSends (cyc : CyclicPkg) (k : Key) (s : State cyc) (e : Event) : Prop :=
  match e with
  | .scheduleEnd k' => k' = k → waitingOf s.senders k = []
  | _ => True

instance (k : Key) (s : State cyc) (e : Event) : Decidable (EndsAfterSends cyc k s e) :=
  match e with
  | .scheduleEnd k' => inferInstanceAs (Decidable (k' = k → waitingOf s.senders k = []))
  | .storeNewRound _ | .addVote _ | .castVote _ _ | .send _ | .cancel _ => inferInstanceAs (Decidable True)

theorem ended_refused {c : Entered} {clock : Clock} {r r' : Round} {e : VoteErr} {storage : Storage cyc}
    (hr : s.storage.rounds[c.round]? = some r) (hcast : r.castVote dep cfg c.hash c.call clock = (r', .error e))
    (hrs : storage.rounds = s.storage.rounds.set c.round r') : storage.ended k = s.storage.ended k := by
  rw [Storage.ended, Storage.ended, (Storage.lookups_set storage hr hrs).1]
  split
  next hi =>
    rw [Storage.box?_of_round (hi ▸ hr)]
    rcases (Round.castVote_error hcast).2 k.id k.hash with heq | ⟨box, voteHash, heq, heq'⟩
    · rw [heq]
    · rw [heq, heq']; rfl
  next => rfl

/-- A vote is taken by a box that has not ended, and ends no box. -/
theorem ended_voted {c : Entered} {clock : Clock} {r r' r'' : Round} {voted : Voted} {box box' : VoteBox}
    {storage : Storage cyc} (hr : s.storage.rounds[c.round]? = some r)
    (hv : VotedOn dep cfg r c.hash c.call clock r' voted box box') (hm : Round.SameVoting r' r'')
    (hrs : storage.rounds = s.storage.rounds.set c.round r'') :
    storage.ended k = s.storage.ended k ∧
      (k = ⟨c.round, c.call.data.instructionID, c.hash⟩ → s.storage.ended k = false) := by
  cases hm
  obtain ⟨r₁, existsB, ht⟩ := hv.target
  have hopen : box.deleted = false ∧ (r.box? c.call.data.instructionID c.hash).any (·.deleted) = false := by
    cases ht with
    | stored hb hd => exact ⟨hd, by rw [hb]; exact hd⟩
    | opened hb ho => exact ⟨(startVoteBox_ok ho).2.deleted, by rw [hb]; rfl⟩
  have hbox' : box'.deleted = false := hv.recorded.deleted.trans hopen.1
  refine ⟨?_, ?_⟩
  · rw [Storage.ended, Storage.ended, (Storage.lookups_set storage hr hrs).1]
    split
    next hi =>
      rw [Storage.box?_of_round (hi ▸ hr)]
      change (r'.box? k.id k.hash).any (·.deleted) = _
      rw [hv.box?]
      split
      next heq => rw [heq.1, heq.2, hopen.2]; exact hbox'
      next => rfl
    next => rfl
  · rintro rfl
    rw [Storage.ended, Storage.box?_of_round hr]
    exact hopen.2

/-- The box of an expiration has not ended, and no other box ends. -/
theorem ended_expired {k' : Key} {r : Round} {box : VoteBox} (storage : Storage cyc)
    (hr : s.storage.rounds[k'.round]? = some r) (hb : r.box? k'.id k'.hash = some box) (hd : box.deleted = false)
    (hrs : storage.rounds = s.storage.rounds.set k'.round (r.setBox k'.id k'.hash box.delete)) :
    s.storage.ended k' = false ∧ ∀ k, storage.ended k = if k' = k then true else s.storage.ended k := by
  refine ⟨by rw [Storage.ended, Storage.box?_of_round hr, hb]; exact hd, fun k => ?_⟩
  rw [Storage.ended, (Storage.lookups_set storage hr hrs).1]
  by_cases hk : k' = k
  · subst hk
    rw [if_pos rfl, if_pos rfl, Round.box?_setBox_self]
    rfl
  · rw [if_neg hk, Storage.ended]
    split
    next hi =>
      rw [Round.box?_setBox_ne fun hand => hk (Key.ext hi hand.1 hand.2).symm, Storage.box?_of_round (hi ▸ hr)]
    next => rfl

theorem orderOK_of_reach (h : Lts.Reach (system dep cyc cfg) (EndsAfterSends cyc k) s) :
    OrderOK (outOf s.out k) (waitingOf s.senders k) (s.storage.ended k) := by
  refine h.invariant (fun s => OrderOK (outOf s.out k) (waitingOf s.senders k) (s.storage.ended k)) ?_ ?_
  · rintro s rfl a ha
    cases ha
  · intro s e s' _ ih hok hs
    cases step_inv hs with
    | known | turnedAway | entered => exact ih
    | stored hrs _ =>
      dsimp only
      rw [Storage.ended, (Storage.lookups_append hrs).1]
      exact ih
    | refused _ hr hcast =>
      dsimp only
      rw [ended_refused hr hcast rfl]
      exact ih
    | @voted _ _ c _ _ _ voted _ _ hr hcast hm _ hrs =>
      obtain ⟨box, box', hv⟩ := Round.castVote_ok hcast
      obtain ⟨hsame, hopen⟩ := ended_voted (k := k) hr hv hm hrs
      dsimp only
      rw [hsame]
      by_cases hk : (⟨c.round, c.call.data.instructionID, c.hash⟩ : Key) = k
      · subst hk
        rw [hopen rfl] at ih ⊢
        rw [waitingOf_append_self]
        refine ih.given fun a ha => ?_
        rw [hv.action] at ha
        split at ha
        · exact VoteBox.tag_of_mem ha
        · cases ha
      · rw [waitingOf_append_ne hk]
        exact ih
    | @ended k' r box hr hb hd =>
      obtain ⟨hopen, hends⟩ := ended_expired { s.storage with
        rounds := s.storage.rounds.set k'.round (r.setBox k'.id k'.hash box.delete) } hr hb hd rfl
      dsimp only
      rw [hends]
      by_cases hk : k' = k
      · subst hk
        rw [hopen, hok rfl] at ih
        rw [if_pos rfl, waitingOf_append_self, hok rfl, List.nil_append]
        exact ih.end VoteBox.endActions_pairwise
      · rw [if_neg hk, waitingOf_append_ne hk]
        exact ih
    | sent hn =>
      have hw := waitingOf_set (k := k) hn
      dsimp only
      rw [outOf_append]
      split at hw
      next heq =>
        obtain ⟨w₁, w₂, hw, hw'⟩ := hw
        rw [hw] at ih
        rw [if_pos heq, hw']
        exact ih.handed
      next hne =>
        rw [if_neg hne, List.append_nil, hw]
        exact ih
    | cancelled => exact ih.cancelled (waitingOf_cancel _ _ _ _)

/-- **Threshold before end.** In every run in which the box does not end while
its threshold action is still being sent, its threshold action comes out
before its end action. -/
theorem threshold_before_end (h : Lts.Reach (system dep cyc cfg) (EndsAfterSends cyc k) s) {i j : Nat}
    {a b : Action} (hi : s.out[i]? = some ⟨k, a⟩) (hj : s.out[j]? = some ⟨k, b⟩)
    (ha : a.data.submissionTag = .threshold) (hb : b.data.submissionTag = .end) : i < j := by
  have hpair : (outOf s.out k).Pairwise MayFollow := (List.pairwise_append.mp (orderOK_of_reach h).pairwise).1
  rw [outOf, List.pairwise_map, List.pairwise_filter] at hpair
  rcases Nat.lt_trichotomy i j with hlt | rfl | hlt
  · exact hlt
  · cases hi.symm.trans hj
    rw [ha] at hb
    exact absurd hb (by decide)
  · obtain ⟨hi', hie⟩ := List.getElem?_eq_some_iff.mp hi
    obtain ⟨hj', hje⟩ := List.getElem?_eq_some_iff.mp hj
    have hfollow := List.pairwise_iff_getElem.mp hpair j i hj' hi' hlt (by simp [hje]) (by simp [hie])
    rw [hie, hje] at hfollow
    exact absurd ha (hfollow hb)

end Runs

/-- Both voters vote on one instruction, the second at the very end of its
voting, and the box ends. -/
def lastMoment : List Event :=
  [.storeNewRound (twoVoters 7), .addVote (plainCall 7 1 5 1 [1]), .castVote 0 (clockAt 100),
    .addVote (plainCall 7 1 5 2 [2]), .castVote 0 (clockAt 160)]

/-- The tags of a box's actions, as they came out. -/
def outTags {cyc : CyclicPkg} (s : State cyc) (k : Key) : List SubmissionTag :=
  (outOf s.out k).map (·.data.submissionTag)

/-- The threshold action is sent before the box ends. -/
theorem threshold_before_end_lastMoment :
    ∃ (s : State .slots) (a b : Action),
      Lts.Reach (system plainDeps .slots plainConfig) (EndsAfterSends .slots ⟨0, 1, 6⟩) s ∧
      s.out[0]? = some ⟨⟨0, 1, 6⟩, a⟩ ∧ s.out[1]? = some ⟨⟨0, 1, 6⟩, b⟩ ∧ (0 : Nat) < 1 := by
  have hrun : ((system plainDeps .slots plainConfig).runIf (EndsAfterSends .slots ⟨0, 1, 6⟩) (start .slots plainConfig)
      (lastMoment ++ [.send 1, .scheduleEnd ⟨0, 1, 6⟩, .send 2])).any (fun s =>
        s.out[0]?.any (fun e => e.key = ⟨0, 1, 6⟩ ∧ e.action.data.submissionTag = .threshold) ∧
        s.out[1]?.any (fun e => e.key = ⟨0, 1, 6⟩ ∧ e.action.data.submissionTag = .end)) := by decide +kernel
  obtain ⟨s, hs, hend⟩ := (Option.any_eq_true _ _).mp hrun
  have hreach := Lts.Reach.of_runIf (.init rfl) hs
  obtain ⟨hfirst, hsecond⟩ := of_decide_eq_true hend
  obtain ⟨⟨_, a⟩, hi, ha⟩ := (Option.any_eq_true _ _).mp hfirst
  obtain ⟨⟨_, b⟩, hj, hb⟩ := (Option.any_eq_true _ _).mp hsecond
  obtain ⟨rfl, ha⟩ := of_decide_eq_true ha
  obtain ⟨rfl, hb⟩ := of_decide_eq_true hb
  exact ⟨s, a, b, hreach, hi, hj, threshold_before_end hreach hi hj ha hb⟩

/-- The box ends before the threshold action is sent, and the end action is
sent first. -/
theorem end_overtakes_threshold :
    ∃ s : State .slots, Lts.Reach (system plainDeps .slots plainConfig) Lts.Free s ∧
      outTags s ⟨0, 1, 6⟩ = [.end, .threshold] := by
  have hrun : ((system plainDeps .slots plainConfig).run (start .slots plainConfig)
      (lastMoment ++ [.scheduleEnd ⟨0, 1, 6⟩, .send 2, .send 1])).any (fun s =>
        outTags s ⟨0, 1, 6⟩ = [.end, .threshold]) := by decide +kernel
  obtain ⟨s, hs, hend⟩ := (Option.any_eq_true _ _).mp hrun
  exact ⟨s, .of_run (.init rfl) (fun _ _ _ => trivial) hs, of_decide_eq_true hend⟩

end TeeProxy.Voting
