/-
What the voting storage emits: in every run, every box has emitted, or is
sending, exactly what its life calls for, and the finalized hash of an ID is
the hash of the first box of that ID to finalize that is not a restore one.

The runs are those in which no context is cancelled and all instructions come
from a set `D` on which `HashFixed` has no collision, is never zero, and JSON
marshalling succeeds.
-/
import TeeProxy.Voting.History

namespace TeeProxy.Voting

/-! ## All boxes -/

section Runs

variable (dep : Deps) (cyc : CyclicPkg) (cfg : Config) (D : Set DataFixed)

/-- No context is cancelled and every instruction is one of `D`. -/
def Served : State cyc → Event → Prop
  | _, .addVote call => call.data.toDataFixed ∈ D
  | _, .cancel _ => False
  | _, _ => True

/-- A vote that finalized a box of the ID which is not a restore one. -/
def finalizes (i : Nat) (id : Hash) (v : Accepted) : Bool :=
  v.round = i ∧ v.call.data.instructionID = id ∧ v.reached = true ∧
    isRestore dep v.call.data.opType v.call.data.opCommand = false

/-- The hash of the first such box to finalize, zero if there is none. -/
def firstFinal (l : List Accepted) (i : Nat) (id : Hash) : Hash :=
  ((l.filter (finalizes dep i id)).head?.map (·.hash)).getD 0

variable {dep} in
theorem firstFinal_append {l : List Accepted} (hl : ∀ v ∈ l, v.hash ≠ 0) (v : Accepted) (i : Nat) (id : Hash) :
    firstFinal dep (l ++ [v]) i id =
      if finalizes dep i id v = true ∧ firstFinal dep l i id = 0 then v.hash else firstFinal dep l i id := by
  unfold firstFinal
  rw [List.filter_append, List.filter_singleton]
  cases hf : l.filter (finalizes dep i id) with
  | nil => cases finalizes dep i id v <;> simp
  | cons w ws =>
    have hw : w ∈ l := (List.mem_filter.mp (hf ▸ List.mem_cons_self)).1
    rw [if_neg fun h => hl w hw h.2]
    rfl

/-- Every box has emitted what it had to, the finalized hashes are those of
the first boxes to finalize, and all votes are on instructions of `D`. -/
structure EmissionOK (s : State cyc) : Prop where
  keys : ∀ k, KeyOK dep D k (s.storage.finalizedHash k.round k.id) (votesOf s.accepted k) (outOf s.out k)
    (waitingOf s.senders k) (s.storage.box? k)
  first : ∀ i id, s.storage.finalizedHash i id = firstFinal dep s.accepted i id
  known : ∀ v ∈ s.accepted, v.call.data.toDataFixed ∈ D ∧
    dep.instruction.hashFixed v.call.data.toDataFixed = .ok v.hash

end Runs

section Steps

variable {dep : Deps} {cyc : CyclicPkg} {cfg : Config} {D : Set DataFixed} {s s' : State cyc}

/-- The box a checked call votes on has a life, and it is on the call's
instruction: no other instruction has its hash. -/
theorem Target.boxOK {r r₁ : Round} {c : Entered} {clock : Clock} {box : VoteBox} {existsB : Bool} {fh : Hash}
    {history : List Accepted} {out : List Action} {waiting : List (List Action)} (hD : Instructions dep D)
    (hc : Checked dep cfg c) (hmem : c.call.data.toDataFixed ∈ D)
    (ht : Target dep cfg r c.hash c.call clock r₁ box existsB)
    (hk : KeyOK dep D ⟨c.round, c.call.data.instructionID, c.hash⟩ fh history out waiting
      (r.box? c.call.data.instructionID c.hash)) :
    BoxOK dep c.call.data.toDataFixed ⟨c.round, c.call.data.instructionID, c.hash⟩ fh history out waiting box ∧
      box.deleted = false := by
  cases ht with
  | stored hb hd =>
    rw [hb] at hk
    obtain ⟨data, hdata, hhash, hbox⟩ := hk
    obtain rfl := hD.collisionFree _ hdata _ hmem _ hhash hc.hash
    exact ⟨hbox, hd⟩
  | opened hb ho =>
    rw [hb] at hk
    obtain ⟨rfl, rfl, rfl⟩ := hk
    have hf := (startVoteBox_ok ho).2
    exact ⟨.fresh hf (Except.ok.inj (hf.iHash.symm.trans hc.hash)), hf.deleted⟩

theorem hash_ne_zero (hD : Instructions dep D) {data : DataFixed} {hash : Hash} (hmem : data ∈ D)
    (hhash : dep.instruction.hashFixed data = .ok hash) : hash ≠ 0 := by
  rintro rfl
  exact hD.nonzero data hmem hhash

theorem VotedOn.keyOK {r r' : Round} {c : Entered} {clock : Clock} {voted : Voted} {box box' : VoteBox} {fh : Hash}
    {history : List Accepted} {out : List Action} {l : List Sender} (hD : Instructions dep D)
    (hc : Checked dep cfg c) (hmem : c.call.data.toDataFixed ∈ D)
    (hv : VotedOn dep cfg r c.hash c.call clock r' voted box box')
    (hfh : r.finalizedHash c.call.data.instructionID = fh)
    (hk : KeyOK dep D ⟨c.round, c.call.data.instructionID, c.hash⟩ fh history out
      (waitingOf l ⟨c.round, c.call.data.instructionID, c.hash⟩) (r.box? c.call.data.instructionID c.hash)) :
    KeyOK dep D ⟨c.round, c.call.data.instructionID, c.hash⟩ (r'.finalizedHash c.call.data.instructionID)
      (history ++ [⟨c.round, c.hash, c.call, clock.vote, voted.reached⟩]) out
      (waitingOf (l ++ [⟨⟨c.round, c.call.data.instructionID, c.hash⟩, voted.actionToSend.toList⟩])
        ⟨c.round, c.call.data.instructionID, c.hash⟩) (some box') := by
  obtain ⟨r₁, existsB, ht⟩ := hv.target
  obtain ⟨hbox, hd⟩ := ht.boxOK hD hc hmem hk
  obtain ⟨m, hm⟩ := hD.marshal _ hmem
  refine ⟨_, hmem, hc.hash, ?_⟩
  have hfin := hv.finalizedHash c.call.data.instructionID
  have hrec := hv.recorded
  have hsend := hv.action
  rw [waitingOf_append_self]
  cases hreached : voted.reached with
  | false =>
    rw [hreached] at hfin hrec hsend
    rw [if_neg (by simp)] at hfin hsend
    rw [hfin, hfh, hsend, Option.toList_none, if_neg (not_not.mpr rfl), List.append_nil]
    exact hbox.recorded hd hrec rfl rfl rfl
  | true =>
    rw [hreached] at hfin hrec hsend
    refine hbox.finalized (fun _ has => ne_nil_of_mem_waitingOf has) hd hrec rfl rfl rfl hm (fun hr => ?_) ?_
    · rw [hfin]
      split
      · exact hash_ne_zero hD hmem hc.hash
      next hno => exact fun h0 => hno ⟨rfl, hr, rfl, h0⟩
    · simpa using hsend

theorem EmissionOK.refused {c : Entered} {clock : Clock} {r r' : Round} {e : VoteErr}
    (h : EmissionOK dep cyc D s) (hr : s.storage.rounds[c.round]? = some r)
    (hcast : r.castVote dep cfg c.hash c.call clock = (r', .error e)) (n : Nat) :
    EmissionOK dep cyc D { s with
      storage := { s.storage with rounds := s.storage.rounds.set c.round r' }
      entered := s.entered.eraseIdx n } := by
  obtain ⟨hfh, hbox⟩ := Round.castVote_error hcast
  set storage : Storage cyc := { s.storage with rounds := s.storage.rounds.set c.round r' }
  obtain ⟨hb', hf'⟩ := Storage.lookups_set storage hr rfl
  have hf : ∀ i id, storage.finalizedHash i id = s.storage.finalizedHash i id := fun i id => by
    rw [hf']
    split
    next hi => rw [hi, Storage.finalizedHash_of_round hr, hfh]
    next => rfl
  refine ⟨fun k => ?_, fun i id => (hf i id).trans (h.first i id), h.known⟩
  have hk := h.keys k
  dsimp only
  rw [hf, hb']
  split
  next hi =>
    rw [Storage.box?_of_round (hi ▸ hr)] at hk
    rcases hbox k.id k.hash with heq | ⟨box, voteHash, heq, heq'⟩
    · rw [heq]; exact hk
    · rw [heq] at hk
      rw [heq']
      obtain ⟨data, hmem, hhash, hok⟩ := hk
      exact ⟨data, hmem, hhash, hok.voteHash voteHash⟩
  next => exact hk

theorem EmissionOK.voted {c : Entered} {clock : Clock} {r r' r'' : Round} {voted : Voted} {storage : Storage cyc}
    (hD : Instructions dep D) (h : EmissionOK dep cyc D s) (hc : Checked dep cfg c)
    (hmem : c.call.data.toDataFixed ∈ D) (hr : s.storage.rounds[c.round]? = some r)
    (hcast : r.castVote dep cfg c.hash c.call clock = (r', .ok voted)) (hm : Round.SameVoting r' r'')
    (hrs : storage.rounds = s.storage.rounds.set c.round r'') (n : Nat) :
    EmissionOK dep cyc D { s with
      storage
      entered := s.entered.eraseIdx n
      senders := s.senders ++ [⟨⟨c.round, c.call.data.instructionID, c.hash⟩, voted.actionToSend.toList⟩]
      accepted := s.accepted ++ [⟨c.round, c.hash, c.call, clock.vote, voted.reached⟩] } := by
  obtain ⟨box, box', hv⟩ := Round.castVote_ok hcast
  cases hm
  obtain ⟨hb', hf'⟩ := Storage.lookups_set storage hr hrs
  have hnz : ∀ v ∈ s.accepted, v.hash ≠ 0 := fun v hv => hash_ne_zero hD (h.known v hv).1 (h.known v hv).2
  refine ⟨fun k => ?_, fun i id => ?_, fun v hv => ?_⟩
  · have hk := h.keys k
    dsimp only
    rw [hb', hf']
    by_cases hkey : (⟨c.round, c.call.data.instructionID, c.hash⟩ : Key) = k
    · subst hkey
      rw [Storage.box?_of_round hr, Storage.finalizedHash_of_round hr] at hk
      have hok := hv.keyOK hD hc hmem rfl hk
      have hbox := hv.box? c.call.data.instructionID c.hash
      rw [if_pos ⟨rfl, rfl⟩] at hbox
      rw [← hbox] at hok
      rw [if_pos rfl, if_pos rfl, votesOf_append_self (by rfl)]
      exact hok
    · rw [votesOf_append_ne (by exact hkey), waitingOf_append_ne hkey]
      split
      next hi =>
        -- another box of the round: its ID's finalized hash may just have been set
        rw [Storage.box?_of_round (hi ▸ hr), hi, Storage.finalizedHash_of_round hr] at hk
        have hbox := hv.box? k.id k.hash
        rw [if_neg fun hand => hkey (Key.ext hi.symm hand.1.symm hand.2.symm)] at hbox
        rw [← hbox] at hk
        refine hk.finalizedHash fun h0 => ?_
        exact (hv.finalizedHash k.id).trans (if_neg fun hand => h0 hand.2.2.2)
      next => exact hk
  · dsimp only
    rw [firstFinal_append hnz, ← h.first, hf']
    by_cases hi : i = c.round
    · subst hi
      rw [if_pos rfl, Storage.finalizedHash_of_round hr]
      refine (hv.finalizedHash id).trans ?_
      simp only [finalizes, decide_eq_true_iff, true_and]
      by_cases hand : voted.reached = true ∧ isRestore dep c.call.data.opType c.call.data.opCommand = false ∧
          id = c.call.data.instructionID ∧ r.finalizedHash id = 0
      · rw [if_pos hand, if_pos ⟨⟨hand.2.2.1.symm, hand.1, hand.2.1⟩, hand.2.2.2⟩]
      · rw [if_neg hand, if_neg fun hand' => hand ⟨hand'.1.2.1, hand'.1.2.2, hand'.1.1.symm, hand'.2⟩]
    · rw [if_neg hi, if_neg]
      simp only [finalizes, decide_eq_true_iff]
      exact fun hand => hi hand.1.1.symm
  · rcases List.mem_append.mp hv with hv | hv
    · exact h.known v hv
    · cases List.mem_singleton.mp hv
      exact ⟨hmem, hc.hash⟩

theorem EmissionOK.ended {k : Key} {r : Round} {box : VoteBox} (hD : Instructions dep D) (h : EmissionOK dep cyc D s)
    (hr : s.storage.rounds[k.round]? = some r) (hb : r.box? k.id k.hash = some box) (hd : box.deleted = false) :
    EmissionOK dep cyc D { s with
      storage := { s.storage with rounds := s.storage.rounds.set k.round (r.setBox k.id k.hash box.delete) }
      senders := s.senders ++ [⟨k, box.endActions dep (r.finalizedHash k.id)⟩] } := by
  set storage : Storage cyc :=
    { s.storage with rounds := s.storage.rounds.set k.round (r.setBox k.id k.hash box.delete) }
  obtain ⟨hb', hf'⟩ := Storage.lookups_set storage hr rfl
  have hf : ∀ i id, storage.finalizedHash i id = s.storage.finalizedHash i id := fun i id => by
    rw [hf']
    split
    next hi => rw [hi, Storage.finalizedHash_of_round hr, Round.finalizedHash_setBox]
    next => rfl
  refine ⟨fun k' => ?_, fun i id => (hf i id).trans (h.first i id), h.known⟩
  have hk := h.keys k'
  dsimp only
  rw [hf, hb']
  by_cases hkk : k' = k
  · subst hkk
    rw [Storage.box?_of_round hr, hb] at hk
    obtain ⟨data, hmem, hhash, hok⟩ := hk
    obtain ⟨m, hm⟩ := hD.marshal data hmem
    rw [if_pos rfl, Round.box?_setBox_self, waitingOf_append_self, ← Storage.finalizedHash_of_round hr]
    exact ⟨data, hmem, hhash, hok.ended (fun _ has => ne_nil_of_mem_waitingOf has) hd hm⟩
  · rw [waitingOf_append_ne (Ne.symm hkk)]
    split
    next hi =>
      rw [Round.box?_setBox_ne fun hand => hkk (Key.ext hi hand.1 hand.2)]
      rw [Storage.box?_of_round (hi ▸ hr)] at hk
      exact hk
    next => exact hk

theorem EmissionOK.handed {n : Nat} {key : Key} {a : Action} {rest : List Action} (h : EmissionOK dep cyc D s)
    (hn : s.senders[n]? = some ⟨key, a :: rest⟩) :
    EmissionOK dep cyc D { s with
      senders := s.senders.set n ⟨key, rest⟩
      out := s.out ++ [⟨key, a⟩] } := by
  refine ⟨fun k => ?_, h.first, h.known⟩
  have hk := h.keys k
  have hw := waitingOf_set (k := k) hn
  dsimp only
  rw [outOf_append]
  split at hw
  next heq =>
    obtain ⟨w₁, w₂, hw, hw'⟩ := hw
    rw [if_pos heq, hw']
    rw [hw] at hk
    cases hbox : s.storage.box? k with
    | none =>
      -- a box that is not stored has nothing to send
      rw [hbox] at hk
      simp [KeyOK] at hk
    | some box =>
      rw [hbox] at hk
      obtain ⟨data, hmem, hhash, hok⟩ := hk
      exact ⟨data, hmem, hhash, hok.handed⟩
  next hne =>
    rw [if_neg hne, List.append_nil, hw]
    exact hk

/-- **Every run.** -/
theorem emissionOK_of_reach (hD : Instructions dep D) (h : Lts.Reach (system dep cyc cfg) (Served cyc D) s) :
    EmissionOK dep cyc D s := by
  refine h.invariant (EmissionOK dep cyc D) ?_ ?_
  · rintro s rfl
    exact ⟨fun k => ⟨rfl, rfl, rfl⟩, fun i id => rfl, fun v hv => by cases hv⟩
  · intro s e s' hreach ih hok hs
    have hchecked := checked_of_entered (Q := fun call => call.data.toDataFixed ∈ D) (fun _ _ h => h) hreach
    cases step_inv hs with
    | known | turnedAway => exact ih
    | entered => exact ⟨ih.keys, ih.first, ih.known⟩
    | stored hrs _ =>
      obtain ⟨hb, hf⟩ := Storage.lookups_append hrs
      exact ⟨fun k => by dsimp only; rw [hb, hf]; exact ih.keys k,
        fun i id => (hf i id).trans (ih.first i id), ih.known⟩
    | refused _ hr hcast => exact ih.refused hr hcast _
    | voted hn hr hcast hm _ hrs =>
      have hc := hchecked _ (List.mem_of_getElem? hn)
      exact ih.voted hD hc.1 hc.2 hr hcast hm hrs _
    | ended hr hb hd => exact ih.ended hD hr hb hd
    | sent hn => exact ih.handed hn
    | cancelled => exact hok.elim

end Steps

/-! ## The emission law -/

/-- The actions of a box on `Out`, then those still being sent. -/
def State.emitted {cyc : CyclicPkg} (s : State cyc) (k : Key) : List Action :=
  outOf s.out k ++ (waitingOf s.senders k).flatten

def tagged (tag : SubmissionTag) (l : List Action) : List Action := l.filter (·.data.submissionTag = tag)

section Law

variable {dep : Deps} {cyc : CyclicPkg} {cfg : Config} {D : Set DataFixed} {s : State cyc} {data : DataFixed} {k : Key}
  {fh : Hash} {box : VoteBox} {history : List Accepted}

theorem tagged_threshold_produced (hf : box.finalized = true)
    (hr : isRestore dep data.opType data.opCommand = false) :
    tagged .threshold (produced dep data k fh box history) =
      [actionOf dep data .threshold (uptoFinal history)] := by
  unfold produced
  rw [hf, hr]
  by_cases hk : box.deleted = true ∧ k.hash = fh
  · simp [tagged, hk, actionOf, SubmissionTag.threshold, SubmissionTag.end]
  · simp [tagged, hk, actionOf]

theorem tagged_end_produced (hr : isRestore dep data.opType data.opCommand = false) :
    tagged .end (produced dep data k fh box history) = [] ∨
      k.hash = fh ∧ (tagged .end (produced dep data k fh box history)).length = 1 := by
  unfold produced
  rw [hr]
  cases box.finalized with
  | false => exact .inl rfl
  | true =>
    by_cases hk : box.deleted = true ∧ k.hash = fh
    · exact .inr ⟨hk.2, by simp [tagged, hk, actionOf, SubmissionTag.threshold, SubmissionTag.end]⟩
    · exact .inl (by simp [tagged, hk, actionOf, SubmissionTag.threshold, SubmissionTag.end])

/-- What a box's life says of the actions it emitted. -/
structure Emits (dep : Deps) (s : State cyc) (k : Key) (box : VoteBox) (data : DataFixed) : Prop where
  unfinalized : box.finalized = false → s.emitted k = []
  threshold : box.finalized = true → isRestore dep data.opType data.opCommand = false →
    ∃ a, tagged .threshold (s.emitted k) = [a] ∧
      a.signatures = (uptoFinal (votesOf s.accepted k)).map (·.call.signature)
  ending : isRestore dep data.opType data.opCommand = false → (tagged .end (s.emitted k)).length ≤ 1 ∧
    (tagged .end (s.emitted k) ≠ [] → k.hash = s.storage.finalizedHash k.round k.id)
  restore : isRestore dep data.opType data.opCommand = true → box.finalized = true →
    (box.deleted = false → s.emitted k = []) ∧
    (box.deleted = true → ∃ t e, s.emitted k = [t, e] ∧ t.data.submissionTag = .threshold ∧
      e.data.submissionTag = .end ∧ t.signatures = (votesOf s.accepted k).map (·.call.signature) ∧
      e.signatures = (votesOf s.accepted k).map (·.call.signature))

theorem BoxOK.emits (h : BoxOK dep data k (s.storage.finalizedHash k.round k.id) (votesOf s.accepted k)
    (outOf s.out k) (waitingOf s.senders k) box) : Emits dep s k box data := by
  refine ⟨fun hf => ?_, fun hf hr => ?_, fun hr => ?_, fun hr hf => ⟨fun hd => ?_, fun hd => ?_⟩⟩
  · obtain ⟨hout, hw⟩ := h.silent (by rw [produced, if_pos hf])
    rw [State.emitted, hout, hw]; rfl
  · refine ⟨actionOf dep data .threshold (uptoFinal (votesOf s.accepted k)), List.perm_singleton.mp ?_, rfl⟩
    rw [← tagged_threshold_produced hf hr]
    exact h.sent.filter _
  · have hperm : (tagged .end (s.emitted k)).Perm (tagged .end (produced dep data k _ box (votesOf s.accepted k))) :=
      h.sent.filter _
    rcases tagged_end_produced hr with hnil | ⟨hk, hone⟩
    · rw [hnil, List.perm_nil] at hperm
      exact ⟨by rw [hperm]; exact Nat.zero_le _, fun hne => absurd hperm hne⟩
    · exact ⟨(hperm.length_eq.trans hone).le, fun _ => hk⟩
  · rw [State.emitted, (h.ordered hr).1, produced, hf, hr, hd]; rfl
  · exact ⟨_, _, by rw [State.emitted, (h.ordered hr).1, produced, hf, hr, hd]; rfl, rfl, rfl, rfl, rfl⟩

theorem finalizedHash_stable (hD : Instructions dep D) {s s' : State cyc}
    (h : Lts.Reach (system dep cyc cfg) (Served cyc D) s)
    (hl : Lts.Later (system dep cyc cfg) (Served cyc D) s s') (i : Nat) (id : Hash)
    (h0 : s.storage.finalizedHash i id ≠ 0) : s'.storage.finalizedHash i id = s.storage.finalizedHash i id := by
  refine hl.relation (fun s s' => s.storage.finalizedHash i id ≠ 0 →
    s'.storage.finalizedHash i id = s.storage.finalizedHash i id) (fun _ _ => rfl) ?_ ?_ h h0
  · intro a b c hab hbc ha
    have hb := hab ha
    exact (hbc (hb ▸ ha)).trans hb
  · intro s e s' hreach hok hs h0
    have hbefore := emissionOK_of_reach hD hreach
    have hafter := emissionOK_of_reach hD (hreach.step hok hs)
    rw [hafter.first]
    rw [hbefore.first] at h0 ⊢
    cases step_inv hs with
    | voted =>
      refine (firstFinal_append (fun v hv => ?_) _ i id).trans (if_neg fun hand => h0 hand.2)
      exact hash_ne_zero hD (hbefore.known v hv).1 (hbefore.known v hv).2
    | _ => rfl

/-- **The emission law.** In every state of every run: a key without a box
has emitted nothing, and a stored box is on an instruction for which (a) it
has emitted nothing while it is not finalized; (b) finalized and not a restore
box, it has exactly one threshold action, with the signatures of the votes up
to the finalizing one; (c) not a restore box, it has at most one end action,
and only if its hash is the finalized hash of its ID, which is that of the
first such box to finalize and does not change once set, so that two such
boxes of one round and ID do not both have an end action; (d) a finalized
restore box has emitted nothing before its end, and then a threshold action
followed by an end action, both with all its signatures. -/
theorem emission_law (hD : Instructions dep D) (s : State cyc)
    (h : Lts.Reach (system dep cyc cfg) (Served cyc D) s) :
    (∀ k, s.storage.box? k = none → s.emitted k = []) ∧
    (∀ k box, s.storage.box? k = some box → ∃ data ∈ D, dep.instruction.hashFixed data = .ok k.hash ∧
      (box.deleted = false → box.proposal.instruction = some data) ∧ Emits dep s k box data) ∧
    (∀ i id, s.storage.finalizedHash i id = firstFinal dep s.accepted i id) ∧
    (∀ s', Lts.Later (system dep cyc cfg) (Served cyc D) s s' → ∀ i id, s.storage.finalizedHash i id ≠ 0 →
      s'.storage.finalizedHash i id = s.storage.finalizedHash i id) ∧
    (∀ k k' data data', data ∈ D → data' ∈ D → dep.instruction.hashFixed data = .ok k.hash →
      dep.instruction.hashFixed data' = .ok k'.hash → isRestore dep data.opType data.opCommand = false →
      isRestore dep data'.opType data'.opCommand = false → k.round = k'.round → k.id = k'.id →
      tagged .end (s.emitted k) ≠ [] → tagged .end (s.emitted k') ≠ [] → k = k') := by
  have hok := emissionOK_of_reach hD h
  have hnone : ∀ k, s.storage.box? k = none → s.emitted k = [] := fun k hk => by
    have := hok.keys k
    rw [hk] at this
    rw [State.emitted, this.2.1, this.2.2]; rfl
  have hlife : ∀ k box, s.storage.box? k = some box → ∃ data ∈ D, dep.instruction.hashFixed data = .ok k.hash ∧
      (box.deleted = false → box.proposal.instruction = some data) ∧ Emits dep s k box data := fun k box hk => by
    have := hok.keys k
    rw [hk] at this
    obtain ⟨data, hmem, hhash, hbox⟩ := this
    exact ⟨data, hmem, hhash, hbox.instruction, hbox.emits⟩
  have hend : ∀ k data, data ∈ D → dep.instruction.hashFixed data = .ok k.hash →
      isRestore dep data.opType data.opCommand = false → tagged .end (s.emitted k) ≠ [] →
      k.hash = s.storage.finalizedHash k.round k.id := fun k data hmem hhash hr hne => by
    cases hk : s.storage.box? k with
    | none => rw [hnone k hk] at hne; exact absurd rfl hne
    | some box =>
      obtain ⟨data', hmem', hhash', -, hemits⟩ := hlife k box hk
      obtain rfl := hD.collisionFree _ hmem _ hmem' _ hhash hhash'
      exact (hemits.ending hr).2 hne
  refine ⟨hnone, hlife, hok.first, fun s' hl => finalizedHash_stable hD h hl, ?_⟩
  intro k k' data data' hmem hmem' hhash hhash' hr hr' hround hid hne hne'
  refine Key.ext hround hid ?_
  rw [hend k data hmem hhash hr hne, hend k' data' hmem' hhash' hr' hne', hround, hid]

end Law

/-- Both voters vote on one instruction of an ID, then both on another. -/
def twoBoxes : List Event :=
  [.storeNewRound (twoVoters 7)] ++
    ([(5, 1), (5, 2), (6, 1), (6, 2)] : List (UInt64 × Address)).flatMap fun (t, signer) =>
      [.addVote (plainCall 7 1 t signer [signer.toNat.toUInt8]), .castVote 0 (clockAt 100)]

/-- The two instructions. -/
def twoInstructions : Set DataFixed :=
  {(plainCall 7 1 5 1 []).data.toDataFixed, (plainCall 7 1 6 1 []).data.toDataFixed}

/-- Two boxes of one ID are finalized: each sends a threshold action with both
signatures, and the finalized hash is that of the first. -/
theorem emission_law_twoBoxes :
    ∃ s, Lts.Reach (system plainDeps .slots plainConfig) (Served .slots twoInstructions) s ∧
      s.storage.finalizedHash 0 1 = 6 ∧
      (∃ a, tagged .threshold (s.emitted ⟨0, 1, 6⟩) = [a] ∧ a.signatures = [[1], [2]]) ∧
      ∃ a, tagged .threshold (s.emitted ⟨0, 1, 7⟩) = [a] ∧ a.signatures = [[1], [2]] := by
  have hD : Instructions plainDeps twoInstructions := by
    refine ⟨?_, ?_, fun d _ => ⟨_, rfl⟩⟩
    · rintro d (rfl | rfl) d' (rfl | rfl) h he he'
      · rfl
      · exact absurd (Except.ok.inj (he.trans he'.symm)) (by decide)
      · exact absurd (Except.ok.inj (he.trans he'.symm)) (by decide)
      · rfl
    · rintro d (rfl | rfl) he <;> exact absurd (Except.ok.inj he) (by decide)
  have hrun : ((system plainDeps .slots plainConfig).run (start .slots plainConfig) twoBoxes).isSome := rfl
  have hreach : Lts.Reach (system plainDeps .slots plainConfig) (Served .slots twoInstructions) _ :=
    .of_run (.init rfl) (fun e he s => by
      simp only [twoBoxes, List.flatMap_cons, List.flatMap_nil, List.cons_append, List.nil_append, List.mem_cons,
        List.not_mem_nil, or_false] at he
      rcases he with rfl | rfl | rfl | rfl | rfl | rfl | rfl | rfl | rfl
      all_goals first | trivial | exact .inl rfl | exact .inr rfl) (Option.some_get hrun).symm
  obtain ⟨-, hlife, -, -, -⟩ := emission_law hD _ hreach
  obtain ⟨d₁, hm₁, hh₁, -, he₁⟩ := hlife ⟨0, 1, 6⟩ _ rfl
  obtain ⟨d₂, hm₂, hh₂, -, he₂⟩ := hlife ⟨0, 1, 7⟩ _ rfl
  refine ⟨_, hreach, rfl, ?_, ?_⟩
  · obtain ⟨a, ha, hs⟩ := he₁.threshold rfl (by rcases hm₁ with rfl | rfl <;> rfl)
    exact ⟨a, ha, hs⟩
  · obtain ⟨a, ha, hs⟩ := he₂.threshold rfl (by rcases hm₂ with rfl | rfl <;> rfl)
    exact ⟨a, ha, hs⟩

end TeeProxy.Voting
