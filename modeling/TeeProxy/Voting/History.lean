/-
The rule for boxes: what a box is when it is opened, and what votes and its end
keep, holds of every box of every run, together with the votes the run has
recorded in it. A box is stored with its first vote, so every stored box has
a history, and a box that is not stored has none.
-/
import TeeProxy.Voting.Life

namespace TeeProxy.Voting

/-! ## Lookups after a step -/

section Lookups

variable {cyc : CyclicPkg} {s : Storage cyc} {i : Nat} {r : Round}

theorem Storage.box?_of_round {k : Key} (hr : s.rounds[k.round]? = some r) : s.box? k = r.box? k.id k.hash := by
  simp [Storage.box?, hr]

theorem Storage.box?_eq_some_iff {k : Key} {box : VoteBox} :
    s.box? k = some box ↔ ∃ r, s.rounds[k.round]? = some r ∧ r.box? k.id k.hash = some box :=
  Option.bind_eq_some_iff

theorem Storage.finalizedHash_of_round (hr : s.rounds[i]? = some r) (id : Hash) :
    s.finalizedHash i id = r.finalizedHash id := by
  simp [Storage.finalizedHash, hr]

theorem Storage.lookups_set (s' : Storage cyc) {r' : Round} (hr : s.rounds[i]? = some r)
    (hs : s'.rounds = s.rounds.set i r') :
    (∀ k, s'.box? k = if k.round = i then r'.box? k.id k.hash else s.box? k) ∧
      ∀ j id, s'.finalizedHash j id = if j = i then r'.finalizedHash id else s.finalizedHash j id := by
  have hlt := (List.getElem?_eq_some_iff.mp hr).1
  have hget : ∀ j, s'.rounds[j]? = if j = i then some r' else s.rounds[j]? := fun j => by
    rw [hs]
    by_cases hj : j = i
    · rw [hj, if_pos rfl, List.getElem?_set_self hlt]
    · rw [if_neg hj, List.getElem?_set_ne (Ne.symm hj)]
  refine ⟨fun k => ?_, fun j id => ?_⟩
  · rw [Storage.box?, hget]; split <;> rfl
  · rw [Storage.finalizedHash, hget]; split <;> rfl

theorem Storage.lookups_append {s' : Storage cyc} {policy : SigningPolicy} {n : Nat} {b : Bool}
    (hs : s'.rounds = s.rounds ++ [createRound policy n b]) :
    (∀ k, s'.box? k = s.box? k) ∧ ∀ j id, s'.finalizedHash j id = s.finalizedHash j id := by
  have hget : ∀ j, s'.rounds[j]? = s.rounds[j]? ∨
      s.rounds[j]? = none ∧ s'.rounds[j]? = some (createRound policy n b) := fun j => by
    rw [hs]
    rcases Nat.lt_trichotomy j s.rounds.length with hj | rfl | hj
    · exact .inl (List.getElem?_append_left hj)
    · exact .inr ⟨List.getElem?_eq_none le_rfl, List.getElem?_concat_length⟩
    · rw [List.getElem?_eq_none (by rw [List.length_append]; exact hj), List.getElem?_eq_none hj.le]
      exact .inl rfl
  refine ⟨fun k => ?_, fun j id => ?_⟩
  · rcases hget k.round with h | ⟨h, h'⟩
    · rw [Storage.box?, Storage.box?, h]
    · rw [Storage.box?, Storage.box?, h, h']; rfl
  · rcases hget j with h | ⟨h, h'⟩
    · rw [Storage.finalizedHash, Storage.finalizedHash, h]
    · rw [Storage.finalizedHash, Storage.finalizedHash, h, h']; rfl

end Lookups

/-! ## The box of a vote -/

def Entered.key (c : Entered) : Key := ⟨c.round, c.call.data.instructionID, c.hash⟩

section Votes

variable {dep : Deps} {cfg : Config} {r r' r₁ : Round} {hash : Hash} {call : Call} {clock : Clock} {voted : Voted}

theorem Round.receipt_finalize (r : Round) (hash : Hash) (call : Call) (box : VoteBox) (voted : Voted) :
    (r.finalize dep hash call box voted).2.receipt = voted.receipt := by
  simp only [finalize]
  repeat' split
  all_goals rfl

/-- The receipt `AddVote` returns is the one its box gave. -/
theorem Round.voteOn_taken {box : VoteBox} {existsB : Bool} (hd : box.deleted = false)
    (h : r₁.voteOn dep hash call clock box existsB = (r', .ok voted)) :
    ∃ box', castOn dep r₁.policy call clock box = (box', .ok (voted.receipt, voted.reached)) ∧
      ∀ id' hash', r'.box? id' hash' =
        if id' = call.data.instructionID ∧ hash' = hash then some box' else r₁.box? id' hash' := by
  unfold Round.voteOn at h
  rw [Round.recordVote_open existsB hd] at h
  rcases hc : castOn dep r₁.policy call clock box with ⟨box', res⟩
  rw [hc] at h
  match res with
  | .error e => cases h
  | .ok (receipt, false) =>
    simp only [Bool.false_eq_true, if_false, Prod.mk.injEq, Except.ok.injEq] at h
    obtain ⟨rfl, rfl⟩ := h
    exact ⟨box', rfl, fun id' hash' => Round.box?_setBox _ _ _ _ _ _⟩
  | .ok (receipt, true) =>
    simp only [if_true, Prod.mk.injEq, Except.ok.injEq] at h
    obtain ⟨rfl, rfl⟩ := h
    refine ⟨box', ?_, fun id' hash' => ?_⟩
    · rw [Round.receipt_finalize, Round.reached_finalize]
    · rw [Round.box?_finalize, Round.box?_setBox]

theorem Round.castVote_taken (h : r.castVote dep cfg hash call clock = (r', .ok voted)) :
    ∃ r₁ box existsB box', Target dep cfg r hash call clock r₁ box existsB ∧
      castOn dep r.policy call clock box = (box', .ok (voted.receipt, voted.reached)) ∧
      ∀ id' hash', r'.box? id' hash' =
        if id' = call.data.instructionID ∧ hash' = hash then some box' else r.box? id' hash' := by
  obtain ⟨box, _, hv⟩ := Round.castVote_ok h
  obtain ⟨r₁, existsB, ht⟩ := hv.target
  have hd : box.deleted = false := by
    cases ht with
    | stored _ hd => exact hd
    | opened _ ho => exact (startVoteBox_ok ho).2.deleted
  unfold Round.castVote at h
  rw [ht.openBox] at h
  obtain ⟨box', hc, hb⟩ := Round.voteOn_taken hd h
  rw [ht.policy] at hc
  exact ⟨r₁, box, existsB, box', ht, hc, fun id' hash' => by rw [hb, ht.box?]⟩

/-- A refused vote is no vote on the box, or it was refused by the box. -/
theorem Round.castVote_refused {e : VoteErr} (h : r.castVote dep cfg hash call clock = (r', .error e))
    {id' hash' : Hash} {box' : VoteBox} (hb : r'.box? id' hash' = some box') :
    r.box? id' hash' = some box' ∨ ∃ box err, r.box? id' hash' = some box ∧ box.deleted = false ∧
      castOn dep r.policy call clock box = (box', .error err) := by
  cases Round.castVote_cast h with
  | refused | ended | leaked => exact .inl hb
  | @rejected box box'' _ hstored hd hc =>
    rw [Round.box?_setBox] at hb
    split at hb
    next heq =>
      obtain ⟨rfl, rfl⟩ := heq
      cases hb
      exact .inr ⟨box, _, hstored, hd, hc⟩
    next => exact .inl hb

end Votes

/-! ## The rule -/

section Rule

variable {dep : Deps} {cyc : CyclicPkg} {cfg : Config} {ok : State cyc → Event → Prop} {s : State cyc}

/-- A property of every stored box and the votes recorded in it, in order,
under the policy of its round. -/
structure EveryBox (I : SigningPolicy → Key → List Accepted → VoteBox → Prop) (s : State cyc) : Prop where
  absent : ∀ k, s.storage.box? k = none → votesOf s.accepted k = []
  stored : ∀ k r box, s.storage.rounds[k.round]? = some r → r.box? k.id k.hash = some box →
    votesOf s.accepted k ≠ [] ∧ I r.policy k (votesOf s.accepted k) box

/-- What a property of boxes has to survive. -/
structure BoxRule (dep : Deps) (cfg : Config) (I : SigningPolicy → Key → List Accepted → VoteBox → Prop) : Prop where
  opened : ∀ policy k call now box, buildVoteBox dep cfg policy call now = .ok box → I policy k [] box
  recorded : ∀ policy k history call clock box box' receipt reached, I policy k history box → box.deleted = false →
    castOn dep policy call clock box = (box', .ok (receipt, reached)) →
    I policy k (history ++ [⟨k.round, k.hash, call, clock.vote, reached⟩]) box'
  refused : ∀ policy k history call clock box box' err, I policy k history box → box.deleted = false →
    castOn dep policy call clock box = (box', .error err) → I policy k history box'
  ended : ∀ policy k history box, I policy k history box → box.deleted = false → I policy k history box.delete

variable {I : SigningPolicy → Key → List Accepted → VoteBox → Prop}

/-- The box a vote goes to, stored or new, with the votes recorded so far. -/
theorem EveryBox.target (h : EveryBox I s) (hI : BoxRule dep cfg I) {c : Entered} {clock : Clock} {r r₁ : Round}
    {box : VoteBox} {existsB : Bool} (hr : s.storage.rounds[c.round]? = some r)
    (ht : Target dep cfg r c.hash c.call clock r₁ box existsB) :
    box.deleted = false ∧ I r.policy c.key (votesOf s.accepted c.key) box := by
  cases ht with
  | stored hb hd => exact ⟨hd, (h.stored c.key r box hr hb).2⟩
  | opened hb ho =>
    have hnone : s.storage.box? c.key = none := (Storage.box?_of_round (k := c.key) hr).trans hb
    refine ⟨(startVoteBox_ok ho).2.deleted, ?_⟩
    rw [h.absent _ hnone]
    exact hI.opened _ _ _ _ _ (startVoteBox_built ho).2

/-- A vote that is taken: its box has one vote more, the others are as they
were. -/
theorem EveryBox.voted (h : EveryBox I s) (hI : BoxRule dep cfg I) {c : Entered} {clock : Clock} {r r' r'' : Round}
    {voted : Voted} {s' : State cyc} (hr : s.storage.rounds[c.round]? = some r)
    (hcast : r.castVote dep cfg c.hash c.call clock = (r', .ok voted)) (hm : Round.SameVoting r' r'')
    (hrs : s'.storage.rounds = s.storage.rounds.set c.round r'')
    (hacc : s'.accepted = s.accepted ++ [⟨c.round, c.hash, c.call, clock.vote, voted.reached⟩]) : EveryBox I s' := by
  obtain ⟨r₁, box, existsB, box', ht, hc, hboxes⟩ := Round.castVote_taken hcast
  obtain ⟨hd, hbox⟩ := h.target hI hr ht
  have hpolicy := Round.castVote_policy hcast
  have hlookup := (Storage.lookups_set s'.storage hr hrs).1
  have hsame : r''.policy = r.policy ∧ ∀ id' hash', r''.box? id' hash' =
      if id' = c.call.data.instructionID ∧ hash' = c.hash then some box' else r.box? id' hash' := by
    cases hm
    exact ⟨hpolicy, hboxes⟩
  have hself : r''.box? c.key.id c.key.hash = some box' := (hsame.2 _ _).trans (if_pos ⟨rfl, rfl⟩)
  have hother : ∀ k : Key, k.round = c.round → c.key ≠ k → r''.box? k.id k.hash = r.box? k.id k.hash := by
    intro k hi hkey
    rw [hsame.2, if_neg fun hand => hkey (Key.ext hi.symm hand.1.symm hand.2.symm)]
  have hrounds : s'.storage.rounds[c.round]? = some r'' := by
    rw [hrs, List.getElem?_set_self (List.getElem?_eq_some_iff.mp hr).1]
  refine ⟨fun k hk => ?_, fun k r₂ box₂ hr₂ hb₂ => ?_⟩
  · have hkey : c.key ≠ k := by
      rintro rfl
      rw [Storage.box?_of_round (k := c.key) hrounds, hself] at hk
      cases hk
    rw [hacc, votesOf_append_ne (by exact hkey)]
    refine h.absent k ?_
    rw [hlookup] at hk
    split at hk
    next hi => rw [Storage.box?_of_round (hi ▸ hr), ← hother k hi hkey]; exact hk
    next => exact hk
  · rw [hacc]
    by_cases hkey : c.key = k
    · subst hkey
      obtain rfl : r'' = r₂ := Option.some.inj (hrounds.symm.trans hr₂)
      obtain rfl : box' = box₂ := Option.some.inj (hself.symm.trans hb₂)
      rw [votesOf_append_self (by rfl), hsame.1]
      exact ⟨by simp, hI.recorded _ _ _ _ _ _ _ _ _ hbox hd hc⟩
    · rw [votesOf_append_ne (by exact hkey)]
      by_cases hi : k.round = c.round
      · rw [hi] at hr₂
        obtain rfl : r'' = r₂ := Option.some.inj (hrounds.symm.trans hr₂)
        rw [hsame.1]
        exact h.stored k r box₂ (hi ▸ hr) ((hother k hi hkey).symm.trans hb₂)
      · rw [hrs, List.getElem?_set_ne (Ne.symm hi)] at hr₂
        exact h.stored k r₂ box₂ hr₂ hb₂

/-- A change of one round that opens no box and records no vote. -/
theorem EveryBox.set (h : EveryBox I s) {s' : State cyc} {i : Nat} {r r' : Round} (hr : s.storage.rounds[i]? = some r)
    (hrs : s'.storage.rounds = s.storage.rounds.set i r') (hacc : s'.accepted = s.accepted)
    (hpolicy : r'.policy = r.policy) (hnone : ∀ id hash, r'.box? id hash = none → r.box? id hash = none)
    (hsome : ∀ k box', k.round = i → r'.box? k.id k.hash = some box' → r.box? k.id k.hash = some box' ∨
      ∃ box, r.box? k.id k.hash = some box ∧
        ∀ history, I r.policy k history box → I r.policy k history box') : EveryBox I s' := by
  refine ⟨fun k hk => ?_, fun k r₂ box₂ hr₂ hb₂ => ?_⟩
  · rw [hacc]
    refine h.absent k ?_
    rw [(Storage.lookups_set s'.storage hr hrs).1] at hk
    split at hk
    next hi => rw [Storage.box?_of_round (hi ▸ hr)]; exact hnone _ _ hk
    next => exact hk
  · rw [hrs, List.getElem?_set] at hr₂
    rw [hacc]
    split at hr₂
    next hi =>
      rw [if_pos (List.getElem?_eq_some_iff.mp hr).1] at hr₂
      cases hr₂
      rw [hpolicy]
      rcases hsome k box₂ hi.symm hb₂ with hb | ⟨box, hb, himp⟩
      · exact h.stored k r box₂ (hi ▸ hr) hb
      · obtain ⟨hne, hbox⟩ := h.stored k r box (hi ▸ hr) hb
        exact ⟨hne, himp _ hbox⟩
    next => exact h.stored k r₂ box₂ hr₂ hb₂

/-- **The rule for boxes.** -/
theorem box_invariant (hI : BoxRule dep cfg I) (h : Lts.Reach (system dep cyc cfg) ok s) : EveryBox I s := by
  refine h.invariant (EveryBox I) ?_ ?_
  · rintro s rfl
    exact ⟨fun _ _ => rfl, fun k r box hr => (by cases hr)⟩
  · intro s e s' _ ih _ hs
    cases step_inv hs with
    | known | turnedAway | entered | sent | cancelled => exact ⟨ih.absent, ih.stored⟩
    | stored hrs _ =>
      refine ⟨fun k hk => ih.absent k (((Storage.lookups_append hrs).1 k).symm.trans hk), fun k r box hr hb => ?_⟩
      dsimp only at hr
      rw [hrs] at hr
      rcases Lts.getElem?_snoc.mp hr with hr | ⟨-, rfl⟩
      · exact ih.stored k r box hr hb
      · cases hb
    | refused _ hr hcast =>
      refine ih.set hr rfl rfl (Round.castVote_policy hcast) (fun id hash hnone => ?_) fun k box' _ hb => ?_
      · rcases (Round.castVote_error hcast).2 id hash with heq | ⟨_, _, -, hsome⟩
        · exact heq.symm.trans hnone
        · cases hsome.symm.trans hnone
      · rcases Round.castVote_refused hcast hb with hb | ⟨box, err, hb, hd, hc⟩
        · exact .inl hb
        · exact .inr ⟨box, hb, fun history hbox => hI.refused _ _ _ _ _ _ _ _ hbox hd hc⟩
    | voted _ hr hcast hm _ hrs => exact ih.voted hI hr hcast hm hrs rfl
    | @ended k r box hr hb hd =>
      refine ih.set hr rfl rfl rfl (fun id hash hnone => ?_) fun k' box' _ hb' => ?_
      · rw [Round.box?_setBox] at hnone
        split at hnone
        · cases hnone
        · exact hnone
      · rw [Round.box?_setBox] at hb'
        split at hb'
        next heq =>
          cases hb'
          rw [heq.1, heq.2]
          exact .inr ⟨box, hb, fun history hbox => hI.ended _ _ _ _ hbox hd⟩
        next => exact .inl hb'

end Rule

end TeeProxy.Voting
