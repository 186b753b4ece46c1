/-
How much variable data the actions of a box carry.

`checkSize` bounds the additional variable message of each vote;
`maxTotalVariableMessage` is to bound what an action aggregates, and nothing
looks at that sum: every vote a box takes is carried whole. An action carries
a first part of the votes recorded in its box (`carried_of_reach`), so its
size is a matter of which votes are cast. Where each non-empty message is a
share of the total, and no more votes than shares have one, the total is
kept (`aggregated_within_total`); two votes that both pass their check can
exceed it.
-/
import TeeProxy.Voting.History

namespace TeeProxy.Voting

/-- The variable messages of votes, in order. -/
def messagesOf (history : List Accepted) : List Bytes := history.map (·.call.data.additionalVariableMessage)

/-- The lengths of messages, summed. -/
def totalLength (messages : List Bytes) : Nat := (messages.map List.length).sum

theorem totalLength_append (l l' : List Bytes) : totalLength (l ++ l') = totalLength l + totalLength l' := by
  simp [totalLength]

theorem totalLength_le_of_isPrefix {history history' : List Accepted} (h : history <+: history') :
    totalLength (messagesOf history) ≤ totalLength (messagesOf history') := by
  obtain ⟨rest, rfl⟩ := h
  rw [messagesOf, messagesOf, List.map_append, totalLength_append]
  exact Nat.le_add_right _ _

/-! ## What an action carries -/

section Carried

variable {dep : Deps} {cyc : CyclicPkg} {cfg : Config} {s s' : State cyc} {ok : State cyc → Event → Prop} {k : Key}
  {box : VoteBox} {a : Action}

/-- The votes of a box that has not ended are the votes of the run. -/
theorem boxRule_ballots : BoxRule dep cfg fun _ _ history box => box.deleted = false → Ballots box history where
  opened _ _ _ _ _ hb _ := .fresh (buildVoteBox_ok hb).votes
  recorded _ _ _ _ _ _ _ _ _ ih hd hc _ := (ih hd).recorded (castOn_ok hc) rfl rfl
  refused _ _ _ _ _ _ _ _ ih hd hc _ := by
    obtain ⟨voteHash, rfl⟩ := VoteBox.addVote_error hc
    exact ⟨(ih hd).size, (ih hd).mem⟩
  ended _ _ _ _ _ _ hdel := by cases hdel

theorem ballots_of_reach (h : Lts.Reach (system dep cyc cfg) ok s) (hb : s.storage.box? k = some box)
    (hd : box.deleted = false) : Ballots box (votesOf s.accepted k) := by
  obtain ⟨r, hr, hb⟩ := Storage.box?_eq_some_iff.mp hb
  exact ((box_invariant boxRule_ballots h).stored k r box hr hb).2 hd

/-- The action carries the messages of the first votes of its box. -/
def Carries (accepted : List Accepted) (k : Key) (a : Action) : Prop :=
  ∃ history, history <+: votesOf accepted k ∧ a.additionalVariableMessages = messagesOf history

theorem Carries.mono {accepted : List Accepted} (h : Carries accepted k a) (v : Accepted) :
    Carries (accepted ++ [v]) k a := by
  obtain ⟨history, hpre, hmsgs⟩ := h
  refine ⟨history, hpre.trans ?_, hmsgs⟩
  rw [votesOf, votesOf, List.filter_append]
  exact List.prefix_append _ _

theorem carries_of_action (h : Lts.Reach (system dep cyc cfg) ok s) (hb : s.storage.box? k = some box)
    {tag : SubmissionTag} (ha : box.action dep tag = .ok a) : Carries s.accepted k a := by
  obtain ⟨data, rfl⟩ := VoteBox.action_ok (ballots_of_reach h hb (VoteBox.action_open ha).1) ha
  exact ⟨_, List.prefix_rfl, rfl⟩

/-- Every action that was or is still to be sent carries votes of its box. -/
structure Carried (s : State cyc) : Prop where
  senders : ∀ x ∈ s.senders, ∀ a ∈ x.actions, Carries s.accepted x.key a
  out : ∀ e ∈ s.out, Carries s.accepted e.key e.action

theorem carried_of_reach (h : Lts.Reach (system dep cyc cfg) ok s) : Carried s := by
  refine h.invariant Carried ?_ ?_
  · rintro s rfl
    exact ⟨fun x hx => (List.not_mem_nil hx).elim, fun e he => (List.not_mem_nil he).elim⟩
  · intro s e s' hreach ih he hs
    have hreach' := hreach.step he hs
    cases step_inv hs with
    | known | stored | turnedAway | entered | refused => exact ⟨ih.senders, ih.out⟩
    | @voted n clock c r r' r'' voted storage hn hr hcast hm hcyc hrs =>
      refine ⟨fun x hx a ha => ?_, fun e he => (ih.out e he).mono _⟩
      rcases List.mem_append.mp hx with hx | hx
      · exact (ih.senders x hx a ha).mono _
      -- the finalizing vote: the box as it is stored now gave the action
      obtain rfl := List.mem_singleton.mp hx
      obtain ⟨box, box', hv⟩ := Round.castVote_ok hcast
      have hact : box'.action dep .threshold = .ok a := by
        have ha' : voted.actionToSend = some a := Option.mem_toList.mp ha
        rw [hv.action] at ha'
        split at ha'
        · exact Except.toOption_eq_some_iff.mp ha'
        · cases ha'
      refine carries_of_action hreach' ?_ hact
      cases hm
      rw [(Storage.lookups_set storage hr hrs).1, if_pos rfl]
      exact (hv.box? _ _).trans (if_pos ⟨rfl, rfl⟩)
    | @ended k r box hr hb hd =>
      refine ⟨fun x hx a ha => ?_, ih.out⟩
      rcases List.mem_append.mp hx with hx | hx
      · exact ih.senders x hx a ha
      obtain rfl := List.mem_singleton.mp hx
      obtain ⟨tag, hact⟩ := VoteBox.mem_endActions ha
      have hcarries : Carries s.accepted k a := carries_of_action hreach ((Storage.box?_of_round hr).trans hb) hact
      exact hcarries
    | @sent n key a actions hn =>
      have hold := ih.senders _ (List.mem_of_getElem? hn)
      refine ⟨fun x hx b hb => ?_, fun e he => ?_⟩
      · rcases List.mem_or_eq_of_mem_set hx with hx | rfl
        · exact ih.senders x hx b hb
        · exact hold b (List.mem_cons_of_mem _ hb)
      · rcases List.mem_append.mp he with he | he
        · exact ih.out e he
        · obtain rfl := List.mem_singleton.mp he
          exact hold a List.mem_cons_self
    | cancelled hn =>
      refine ⟨fun x hx a ha => ?_, ih.out⟩
      rcases List.mem_or_eq_of_mem_set hx with hx | rfl
      · exact ih.senders x hx a ha
      · cases ha

end Carried

/-! ## Votes that share the total -/

/-- How many votes the box of a key holds. -/
def Storage.voteCount {cyc : CyclicPkg} (s : Storage cyc) (k : Key) : Nat :=
  ((s.box? k).map (·.votes.size)).getD 0

/-- Each vote has no variable message, or it is one of the first `shares` of
its box and its message is at most that share of the total. -/
def Sharing (cyc : CyclicPkg) (shares : Key → Nat) : State cyc → Event → Prop
  | s, .castVote n _ => ∀ c ∈ s.entered[n]?, c.call.data.additionalVariableMessage = [] ∨
      s.storage.voteCount c.key < shares c.key ∧
        c.call.data.additionalVariableMessage.length ≤ maxTotalVariableMessage / shares c.key
  | _, _ => True

instance (cyc : CyclicPkg) (shares : Key → Nat) (s : State cyc) (e : Event) : Decidable (Sharing cyc shares s e) :=
  match e with
  | .castVote n _ => inferInstanceAs (Decidable (∀ c ∈ s.entered[n]?, _ ∨ _ ∧ _))
  | .storeNewRound _ | .addVote _ | .scheduleEnd _ | .send _ | .cancel _ => isTrue trivial

section Totals

variable {dep : Deps} {cyc : CyclicPkg} {cfg : Config} {shares : Key → Nat} {s : State cyc} {k : Key}

/-- A box that takes a vote holds the votes recorded so far. -/
theorem voteCount_of_cast {ok : State cyc → Event → Prop} (h : Lts.Reach (system dep cyc cfg) ok s) {c : Entered}
    {clock : Clock} {r r' : Round} {voted : Voted} (hr : s.storage.rounds[c.round]? = some r)
    (hcast : r.castVote dep cfg c.hash c.call clock = (r', .ok voted)) :
    s.storage.voteCount c.key = (votesOf s.accepted c.key).length := by
  obtain ⟨box, box', hv⟩ := Round.castVote_ok hcast
  obtain ⟨r₁, existsB, ht⟩ := hv.target
  have hround : s.storage.box? c.key = r.box? c.call.data.instructionID c.hash := Storage.box?_of_round (k := c.key) hr
  cases ht with
  | stored hb hd =>
    rw [Storage.voteCount, hround, hb]
    exact (ballots_of_reach h (hround.trans hb) hd).size
  | opened hb _ =>
    rw [Storage.voteCount, hround, hb, (box_invariant boxRule_ballots h).absent _ (hround.trans hb)]
    rfl

/-- The votes of a box use at most a share each, and no more than all of
them. -/
theorem totalLength_le_shares (h : Lts.Reach (system dep cyc cfg) (Sharing cyc shares) s) (k : Key) :
    totalLength (messagesOf (votesOf s.accepted k)) ≤
      min (votesOf s.accepted k).length (shares k) * (maxTotalVariableMessage / shares k) := by
  refine h.invariant (fun s => ∀ k, totalLength (messagesOf (votesOf s.accepted k)) ≤
    min (votesOf s.accepted k).length (shares k) * (maxTotalVariableMessage / shares k)) ?_ ?_ k
  · rintro s rfl k
    exact Nat.zero_le _
  · intro s e s' hreach ih he hs k
    cases step_inv hs with
    | known | stored | turnedAway | entered | refused | ended | sent | cancelled => exact ih k
    | @voted n clock c r r' r'' voted storage hn hr hcast hm hcyc hrs =>
      have hk := ih k
      by_cases hkey : c.key = k
      · subst hkey
        dsimp only
        rw [votesOf_append_self (by rfl), messagesOf, List.map_append, totalLength_append, List.length_append]
        have hone : totalLength [c.call.data.additionalVariableMessage] =
          c.call.data.additionalVariableMessage.length := by simp [totalLength]
        change totalLength (messagesOf _) + totalLength [c.call.data.additionalVariableMessage] ≤
          min ((votesOf s.accepted c.key).length + 1) _ * _
        rw [hone]
        rcases he c hn with hempty | ⟨hroom, hshare⟩
        · rw [hempty]
          exact hk.trans (Nat.mul_le_mul_right _ (by omega))
        · rw [voteCount_of_cast hreach hr hcast] at hroom
          rw [Nat.min_eq_left hroom.le] at hk
          rw [Nat.min_eq_left hroom, Nat.succ_mul]
          exact Nat.add_le_add hk hshare
      · dsimp only
        rw [votesOf_append_ne (by exact hkey)]
        exact hk

/-- **Votes that share the total keep it.** In every run in which each vote
without an empty variable message is one of the first `shares` of its box and
has at most `maxTotalVariableMessage / shares` bytes, every action on `Out`
carries at most `maxTotalVariableMessage` bytes of variable messages. -/
theorem aggregated_within_total (shares : Key → Nat) (s : State cyc)
    (h : Lts.Reach (system dep cyc cfg) (Sharing cyc shares) s) :
    ∀ e ∈ s.out, totalLength e.action.additionalVariableMessages ≤ maxTotalVariableMessage := by
  intro e he
  obtain ⟨history, hpre, hmsgs⟩ := (carried_of_reach h).out e he
  calc totalLength e.action.additionalVariableMessages
      = totalLength (messagesOf history) := by rw [hmsgs]
    _ ≤ totalLength (messagesOf (votesOf s.accepted e.key)) := totalLength_le_of_isPrefix hpre
    _ ≤ min (votesOf s.accepted e.key).length (shares e.key) * (maxTotalVariableMessage / shares e.key) :=
        totalLength_le_shares h e.key
    _ ≤ shares e.key * (maxTotalVariableMessage / shares e.key) := Nat.mul_le_mul_right _ (Nat.min_le_right _ _)
    _ ≤ maxTotalVariableMessage := Nat.mul_div_le _ _

end Totals

/-- A vote on a restore instruction. -/
def restoreCall (signer : Address) (message : Bytes) : Call where
  data := ⟨⟨1, 0, 5, 7, OpPkg.numbered.typeHash .wallet, OpPkg.numbered.commandHash .keyDataProviderRestore, [], 0,
    [], []⟩, message⟩
  signer
  signature := []
  metadata := Meta.new .numbered .blank .empty 0

/-- The two voters who have entered vote, the box ends and its actions are sent. -/
def voteAndEnd : List Event :=
  [.castVote 0 (clockAt 100), .castVote 0 (clockAt 101), .scheduleEnd ⟨0, 1, 6⟩, .send 2, .send 2]

theorem aggregated_within_total_restore :
    ∃ s, Lts.Reach (system plainDeps .slots plainConfig) (Sharing .slots fun _ => 2) s ∧
      s.out.map (·.action.additionalVariableMessages) = [[[1], [2, 3]], [[1], [2, 3]]] ∧
      ∀ e ∈ s.out, totalLength e.action.additionalVariableMessages ≤ maxTotalVariableMessage := by
  have hrun : ((system plainDeps .slots plainConfig).runIf (Sharing .slots fun _ => 2) (start .slots plainConfig)
      ([.storeNewRound (twoVoters 7), .addVote (restoreCall 1 [1]), .addVote (restoreCall 2 [2, 3])] ++
        voteAndEnd)).any fun s => s.out.map (·.action.additionalVariableMessages) = [[[1], [2, 3]], [[1], [2, 3]]] := by
    decide +kernel
  obtain ⟨s, hs, hout⟩ := (Option.any_eq_true _ _).mp hrun
  have hreach : Lts.Reach (system plainDeps .slots plainConfig) (Sharing .slots fun _ => 2) s :=
    .of_runIf (.init rfl) hs
  exact ⟨s, hreach, of_decide_eq_true hout, aggregated_within_total _ s hreach⟩

/-! ### Two large votes -/

/-- As much as a restore vote may carry where `MaxProviderVote` is unset. -/
@[irreducible] def largest : Bytes := List.replicate maxTotalVariableMessage 0

theorem length_largest : largest.length = maxTotalVariableMessage := by
  unfold largest
  exact List.length_replicate

theorem checkSize_largest (signer : Address) :
    checkSize plainDeps.op (restoreCall signer largest).data plainConfig.maxProviderVote = .ok () := by
  have hc : constraints plainDeps.op (restoreCall signer largest).data.opCommand plainConfig.maxProviderVote =
    .ok ⟨50 * kib, 100 * kib, maxTotalVariableMessage⟩ := rfl
  have hfits : ¬ (restoreCall signer largest).data.additionalVariableMessage.length > maxTotalVariableMessage :=
    not_lt.mpr length_largest.le
  unfold checkSize
  rw [hc]
  simp only [if_neg hfits]
  rfl

/-- Both voters have entered with such a vote. -/
def bothEntered : State .slots :=
  { start .slots plainConfig with
    storage := (Storage.new .slots plainConfig).storeNewRound plainConfig (twoVoters 7)
    entered := [⟨0, 6, restoreCall 1 largest⟩, ⟨0, 6, restoreCall 2 largest⟩] }

theorem step_addVote {dep : Deps} {cyc : CyclicPkg} {cfg : Config} {s : State cyc} {call : Call} {i : Nat} {hash : Hash}
    (hsize : checkSize dep.op call.data cfg.maxProviderVote = .ok ())
    (hhash : dep.instruction.hashFixed call.data.toDataFixed = .ok hash)
    (hround : cyc.get s.storage.cyclic call.data.rewardEpochID = some i)
    (hmeta : call.metadata.checkConsistency call.data call.signer = .ok ()) :
    step dep cyc cfg s (.addVote call) = some { s with entered := s.entered ++ [⟨i, hash, call⟩] } := by
  simp only [step, Storage.lookup, hsize, hhash, hround, hmeta]

theorem enter_largest (s : State .slots) (hs : s.storage.cyclic = bothEntered.storage.cyclic) (signer : Address) :
    (system plainDeps .slots plainConfig).step s (.addVote (restoreCall signer largest)) =
      some { s with entered := s.entered ++ [⟨0, 6, restoreCall signer largest⟩] } := by
  have hround : CyclicPkg.slots.get bothEntered.storage.cyclic 7 = some 0 := by decide +kernel
  exact step_addVote (checkSize_largest signer) rfl (hs ▸ hround) rfl

theorem reach_bothEntered : Lts.Reach (system plainDeps .slots plainConfig) Lts.Free bothEntered := by
  have hstored : Lts.Reach (system plainDeps .slots plainConfig) Lts.Free { bothEntered with entered := [] } :=
    .step (.init rfl) (e := .storeNewRound (twoVoters 7)) trivial rfl
  have hone : Lts.Reach (system plainDeps .slots plainConfig) Lts.Free
      { bothEntered with entered := [⟨0, 6, restoreCall 1 largest⟩] } :=
    hstored.step trivial (enter_largest { bothEntered with entered := [] } rfl 1)
  exact hone.step trivial (enter_largest { bothEntered with entered := [⟨0, 6, restoreCall 1 largest⟩] } rfl 2)

/-- **The total is not kept.** `MaxProviderVote` is unset and two data
providers vote on a KeyDataProviderRestore instruction with 1 MiB each: both
pass their size check, and the threshold and the end action each carry 2 MiB. -/
theorem aggregated_exceeds_total :
    plainConfig.maxProviderVote = 0 ∧
    ∃ s, Lts.Reach (system plainDeps .slots plainConfig) Lts.Free s ∧
      s.out.map (·.action.data.submissionTag) = [.threshold, .end] ∧
      ∀ e ∈ s.out, totalLength e.action.additionalVariableMessages = 2 * maxTotalVariableMessage := by
  have hrun : ((system plainDeps .slots plainConfig).run bothEntered voteAndEnd).isSome := by rfl
  refine ⟨rfl, _, reach_bothEntered.of_run (fun _ _ _ => trivial) (Option.some_get hrun).symm, rfl, ?_⟩
  have hmsgs : ∀ e ∈ (((system plainDeps .slots plainConfig).run bothEntered voteAndEnd).get hrun).out,
      e.action.additionalVariableMessages = [largest, largest] := by
    intro e he
    rcases List.mem_pair.mp he with rfl | rfl <;> rfl
  intro e he
  rw [hmsgs e he, totalLength, List.map_cons, List.map_singleton, length_largest]
  rfl

end TeeProxy.Voting
