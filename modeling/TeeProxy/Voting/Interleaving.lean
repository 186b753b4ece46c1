/-
What any interleaving of votes and expirations gives: the answers and the end
state of an order of the calls (`Linear`), one object for an ID and a hash,
and receipts whose votes are stored.
-/
import TeeProxy.Voting.Linear
import TeeProxy.Voting.Receipts
import Mathlib.Data.List.Permutation

namespace TeeProxy.Voting.Locks

open History (Item Sequential)

section Outcome

variable {dep : Deps} {cfg : Config} {policy : SigningPolicy} {s s' : State} {n : Nat} {t t' : Thread} {a : Arg}

/-! ## Receipts -/

/-- The vote is in its box under the number of its receipt, until the box is
deleted. -/
def Stored (h : Heap) (a : Arg) (receipt : Receipt) : Prop :=
  ∃ box, h.box? a.id a.hash = some box ∧ (box.deleted = false → ∃ v, box.votes.get? a.call.signer = some v ∧
    v.sequence = receipt.sequence ∧ v.signature = a.call.signature ∧
    v.additionalVariableMessage = a.call.data.additionalVariableMessage)

/-- What a box becomes keeps its votes, or is deleted. -/
def Keeps (box box' : VoteBox) : Prop :=
  box'.deleted = false → box.deleted = false ∧ ∀ p v, box.votes.get? p = some v → box'.votes.get? p = some v

section Receipts

variable {h h' : Heap} {box box' : VoteBox} {fin fin' : Hash} {existsB : Bool}
  {res : Except VoteErr Voted} {voted : Voted}

theorem Keeps.refl (box : VoteBox) : Keeps box box := fun hd => ⟨hd, fun _ _ hv => hv⟩

theorem voteEffect_keeps (heff : voteEffect dep policy a existsB box fin = (box', fin', res)) : Keeps box box' := by
  rcases voteEffect_cases heff with ⟨-, -, -, rfl | ⟨_, rfl⟩⟩ | ⟨voted, -, hd, hc⟩
  · exact .refl _
  · exact fun hd => ⟨hd, fun _ _ hv => hv⟩
  · have hrec := castOn_ok hc
    refine fun _ => ⟨hd, fun p v hv => ?_⟩
    rw [hrec.votes, GoMap.get?_set_ne, hv]
    rintro rfl
    rw [hrec.new] at hv
    cases hv

/-- The vote that was taken has the number of its receipt. -/
theorem voteEffect_stored (heff : voteEffect dep policy a existsB box fin = (box', fin', .ok voted)) :
    ∃ v, box'.votes.get? a.call.signer = some v ∧ v.sequence = voted.receipt.sequence ∧
      v.signature = a.call.signature ∧ v.additionalVariableMessage = a.call.data.additionalVariableMessage := by
  rcases voteEffect_cases heff with ⟨e, he, -⟩ | ⟨voted', hv, -, hc⟩
  · cases he
  · cases hv
    obtain ⟨-, hreceipt⟩ := VoteBox.addVote_receipt hc
    refine ⟨_, by rw [(castOn_ok hc).votes, GoMap.get?_set_self], ?_, rfl, rfl⟩
    rw [hreceipt]
    rfl

theorem Stored.keeps {receipt : Receipt} (hst : Stored h a receipt)
    (hkeeps : ∀ id hash box, h.box? id hash = some box → ∃ box', h'.box? id hash = some box' ∧ Keeps box box') :
    Stored h' a receipt := by
  obtain ⟨box, hbox, hvote⟩ := hst
  obtain ⟨box', hbox', hk⟩ := hkeeps _ _ _ hbox
  refine ⟨box', hbox', fun hd => ?_⟩
  obtain ⟨v, hv, hrest⟩ := hvote (hk hd).1
  exact ⟨v, (hk hd).2 _ _ hv, hrest⟩

/-- Every vote with a receipt is stored. -/
def ReceiptsStored (ts : List Trace) (h : Heap) : Prop :=
  ∀ τ ∈ ts, ∀ a voted, τ.op = some (.vote a) → τ.answer = some (.voted (.ok voted)) → Stored h a voted.receipt

theorem ReceiptsStored.move (hst : ReceiptsStored s.traces h)
    (hkeeps : ∀ id hash box, h.box? id hash = some box → ∃ box', h'.box? id hash = some box' ∧ Keeps box box')
    (hmine : ∀ a voted, t'.trace.op = some (.vote a) → t'.trace.answer = some (.voted (.ok voted)) →
      Stored h' a voted.receipt) : ReceiptsStored (s.set n t').traces h' := by
  rw [traces_set]
  intro τ hτ a voted hop hans
  rcases List.mem_or_eq_of_mem_set hτ with hτ | rfl
  · exact (hst τ hτ a voted hop hans).keeps hkeeps
  · exact hmine a voted hop hans

theorem ReceiptsStored.spawn (hst : ReceiptsStored s.traces h) (hans : t.trace.answer = none) :
    ReceiptsStored ({ s with threads := s.threads ++ [t] } : State).traces h := by
  rw [traces_spawn]
  intro τ hτ a voted hop hvoted
  rcases List.mem_append.mp hτ with hτ | hτ
  · exact hst τ hτ a voted hop hvoted
  · rw [List.mem_singleton.mp hτ, hans] at hvoted
    cases hvoted

/-- A written box keeps its votes if what is written does. -/
theorem keeps_write (hok : h.OK) {ref b : Nat} {d : BoxCell} (hd : h.voteBox[b]? = some d)
    (hkeeps : Keeps d.box box) (id hash : Hash) (old : VoteBox) (hold : h.box? id hash = some old) :
    ∃ box', (h.write ref b box fin).box? id hash = some box' ∧ Keeps old box' := by
  rw [hok.box?_write ⟨d, hd, rfl, rfl⟩]
  split
  next heq =>
    obtain ⟨rfl, rfl⟩ := heq
    rw [hok.box?_iff.mpr ⟨b, hd⟩] at hold
    cases hold
    exact ⟨box, rfl, hkeeps⟩
  next => exact ⟨old, hold, .refl old⟩

theorem receipts_step (hg : Guarded dep cfg policy s) (hst : ReceiptsStored s.traces s.heap)
    (hs : Step dep cfg policy s s') : ReceiptsStored s'.traces s'.heap := by
  have hsame : ∀ id hash box, s.heap.box? id hash = some box →
      ∃ box', s.heap.box? id hash = some box' ∧ Keeps box box' := fun _ _ box hbox => ⟨box, hbox, .refl box⟩
  have hrefused : ∀ {n : Nat} {a : Arg} {against : List Nat} {e : VoteErr} {ref? : Option Nat},
      ReceiptsStored (s.set n (.addVote a against (.giveUp e ref?))).traces s.heap := by
    intro n a against e ref?
    refine hst.move hsame fun a voted _ hans => ?_
    rw [giveUp_trace] at hans
    cases hans
  cases hs with
  | addVote a => exact hst.spawn rfl
  | statuses id => exact hst.spawn rfl
  | quiet hn hq =>
    refine hst.move hsame fun a voted hop hans => ?_
    rw [hq.trace] at hop hans
    exact hst _ (List.mem_of_getElem? (traces_of_thread hn)) a voted hop hans
  | early | full | buildFailed | firstFailed => exact hrefused
  | reserve =>
    refine hst.move hsame fun a voted _ hans => ?_
    cases hans
  | publish hn heff =>
    obtain ⟨hslot, hno, -⟩ := hg.knows _ _ hn
    refine ReceiptsStored.spawn (s := ⟨_, _, s.threads.set _ _⟩)
      (hst.move (fun id hash box hbox => ⟨box, ?_, .refl box⟩) fun a voted hop hans => ?_) rfl
    · rw [hg.heap.box?_publish hslot hno, if_neg, hbox]
      rintro ⟨rfl, rfl⟩
      rw [hno] at hbox
      cases hbox
    · cases hop
      cases hans
      exact ⟨_, by rw [hg.heap.box?_publish hslot hno, if_pos ⟨rfl, rfl⟩], fun _ => voteEffect_stored heff⟩
  | vote hn hc hd heff =>
    obtain ⟨-, hbox⟩ := hg.knows _ _ hn
    refine hst.move (keeps_write hg.heap hd (voteEffect_keeps heff)) fun a voted hop hans => ?_
    cases hop
    cases hans
    exact ⟨_, by rw [hg.heap.box?_write hbox, if_pos ⟨rfl, rfl⟩], fun _ => voteEffect_stored heff⟩
  | expire hn hc hd =>
    refine hst.move (keeps_write hg.heap hd fun hdel => by cases hdel) fun a voted hop _ => ?_
    cases hop

theorem receipts_stored (hr : Lts.Reach (system dep cfg policy) Lts.Free s) : ReceiptsStored s.traces s.heap := by
  refine hr.invariant (fun s => ReceiptsStored s.traces s.heap) ?_ fun s e s' hr hst _ hs =>
    receipts_step (guarded hr) hst (step_inv hs)
  rintro s rfl τ hτ
  cases hτ

end Receipts

/-! ## Interleavings and orders -/

theorem Thread.opens_of_finished (h : t.finished = true) : t.trace.opens = none := by
  unfold Thread.finished at h
  split at h <;> first | rfl | cases h

/-- **Every interleaving is an order.** Wherever a run has got to, its calls
that have their answer took effect one after the other and were answered so,
but for votes that the limiter refused in vain, which did nothing. When all
calls are over the boxes, the finalized hashes and the limiter are those of
that order. There is one `voteBoxes` for an ID and one `voteBox` for a hash,
and a vote with a receipt is in its box under the number of the receipt until
the box is deleted. -/
theorem interleaving_is_sequential (hr : Lts.Reach (system dep cfg policy) Lts.Free s) :
    (∃ (l : List (Item Op Answer)) (r : Round),
      Sequential (exec dep cfg) (createRound policy cfg.maxPendingRequests cfg.collectVoters) l r ∧
      (∀ x ∈ l, ∃ t, s.threads[x.call]? = some t ∧ t.trace.op = some x.op) ∧
      (∀ (n : Nat) (t : Thread) (x : Answer), s.threads[n]? = some t → t.trace.answer = some x →
        (∃ op, t.trace.op = some op ∧ ⟨n, op, x⟩ ∈ l) ∨
          n ∉ l.map Item.call ∧ RefusedInVain dep cfg policy s.traces t.trace) ∧
      ((∀ t ∈ s.threads, t.finished = true) →
        (∀ id hash, s.heap.box? id hash = r.box? id hash) ∧ (∀ id, s.heap.finalizedHash id = r.finalizedHash id) ∧
          ∀ p, s.limiter.counter.get? p = r.limiter.counter.get? p)) ∧
    (∀ id ref ref', s.heap.IsFor ref id → s.heap.IsFor ref' id → ref = ref') ∧
    (∀ id hash b b', s.heap.IsBox b id hash → s.heap.IsBox b' id hash → b = b') ∧
    ∀ a against pc voted, Thread.addVote a against pc ∈ s.threads → pc.result? = some (.ok voted) →
      Stored s.heap a voted.receipt := by
  have hg := guarded hr
  obtain ⟨l, r, hl⟩ := linear hr
  refine ⟨⟨l, r, hl.seq, fun x hx => ?_, fun n t x hn hx => ?_, fun hall => ?_⟩,
    fun _ _ _ h₁ h₂ => hg.heap.ref_eq h₁ h₂,
    fun _ _ _ _ h₁ h₂ => hg.heap.box_eq h₁ h₂, fun a against pc voted ht hres => ?_⟩
  · obtain ⟨τ, hτ, hop⟩ := hl.calls x hx
    obtain ⟨t, ht, rfl⟩ := thread_of_trace hτ
    exact ⟨t, ht, hop⟩
  · exact (hl.placed n t.trace (traces_of_thread hn)).answered x hx
  · have hnone : ∀ τ ∈ s.traces, τ.opens = none := by
      intro τ hτ
      obtain ⟨t, ht, rfl⟩ := List.mem_map.mp hτ
      exact Thread.opens_of_finished (hall t ht)
    have hview : ∀ id, r.view id = s.heap.view id := by
      refine fun id => hl.settled id fun τ hτ a ha => ?_
      rw [hnone τ hτ] at ha
      cases ha
    have howed : ∀ p, owed dep cfg policy s.traces p = 0 := by
      refine fun p => List.countP_eq_zero.mpr fun τ hτ => ?_
      rw [Trace.owes_none (hnone τ hτ)]
      exact Bool.false_ne_true
    exact ⟨fun id hash => congrFun (congrArg View.box? (hview id)).symm hash,
      fun id => (congrArg View.finalizedHash (hview id)).symm, fun p => (hl.limiter.eq_of_none howed p).symm⟩
  · refine receipts_stored hr _ (List.mem_map_of_mem ht) a voted rfl ?_
    rw [Thread.trace, hres]
    rfl

end Outcome

/-! ## Two runs -/

/-- Two voters vote on a new ID. The second has called first, and gets the
lock when the first has opened the box; its vote finalizes the box, which is
never ended. -/
def overtaken : List Event :=
  [.addVote ⟨6, plainCall 7 1 5 2 [2], clockAt 101⟩, .addVote ⟨6, plainCall 7 1 5 1 [1], clockAt 100⟩] ++
    List.replicate 9 (.run 1) ++ List.replicate 11 (.run 0) ++ [.cancel 2]

/-- The box is that of some order of the two votes, and has both. -/
theorem interleaving_is_sequential_overtaken :
    ∃ s l r, Lts.Reach (system plainDeps plainConfig (twoVoters 7)) Lts.Free s ∧
      Sequential (exec plainDeps plainConfig) (createRound (twoVoters 7) 2 true) l r ∧
      s.heap.box? 1 6 = r.box? 1 6 ∧ (s.heap.box? 1 6).any (fun box => box.votes.size = 2 ∧ box.finalized) = true := by
  have hrun : ((system plainDeps plainConfig (twoVoters 7)).run (start plainConfig (twoVoters 7)) overtaken).any
      fun s =>
      s.threads.all Thread.finished && (s.heap.box? 1 6).any fun box => box.votes.size = 2 ∧ box.finalized := by
    decide +kernel
  obtain ⟨s, hs, hend⟩ := (Option.any_eq_true _ _).mp hrun
  rw [Bool.and_eq_true, List.all_eq_true] at hend
  have hreach : Lts.Reach (system plainDeps plainConfig (twoVoters 7)) Lts.Free s :=
    .of_run (.init rfl) (fun _ _ _ => trivial) hs
  obtain ⟨⟨l, r, hseq, -, -, hover⟩, -⟩ := interleaving_is_sequential hreach
  exact ⟨s, l, r, hreach, hseq, (hover hend.1).1 1 6, hend.2⟩

/-- The calls that have their answer. -/
def answered (s : State) : List (Item Op Answer) :=
  s.traces.zipIdx.filterMap fun p => match p.1.op, p.1.answer with
    | some op, some x => some ⟨p.2, op, x⟩
    | _, _ => none

theorem mem_answered {s : State} {x : Item Op Answer} : x ∈ answered s ↔
    ∃ t, s.threads[x.call]? = some t ∧ t.trace.op = some x.op ∧ t.trace.answer = some x.res := by
  simp only [answered, List.mem_filterMap, Prod.exists, List.mem_zipIdx_iff_getElem?, State.traces, List.getElem?_map,
    Option.map_eq_some_iff]
  constructor
  · rintro ⟨τ, n, ⟨t, ht, rfl⟩, hx⟩
    split at hx <;> cases hx
    next hop hans => exact ⟨t, ht, hop, hans⟩
  · rintro ⟨t, ht, hop, hans⟩
    exact ⟨t.trace, x.call, ⟨t, ht, rfl⟩, by rw [hop, hans]⟩

/-- A refusal for want of a slot. -/
def Answer.limitReached : Answer → Bool
  | .voted (.error (.limiter .limitReached)) => true
  | _ => false

/-- One proposal at a time. -/
def oneSlot : Config := { plainConfig with maxPendingRequests := 1 }

/-- A voter whose vote is enough. -/
def soleVoter : SigningPolicy := ⟨7, 1, .ofMap ((∅ : GoMap Address UInt16).set 1 2)⟩

/-- Two IDs have boxes, both finalized by their first vote. A vote on another
instruction of the first ID has its slot; a vote on another one of the second
is refused; the first goes on and its box too is finalized at once. -/
def crossed : List Event :=
  .addVote ⟨6, plainCall 7 1 5 1 [1], clockAt 100⟩ :: List.replicate 9 (.run 0) ++
    .addVote ⟨6, plainCall 7 2 5 1 [1], clockAt 101⟩ :: List.replicate 9 (.run 2) ++
    [.addVote ⟨7, plainCall 7 1 6 1 [1], clockAt 102⟩, .addVote ⟨8, plainCall 7 2 7 1 [1], clockAt 102⟩] ++
    List.replicate 6 (.run 4) ++ List.replicate 7 (.run 5) ++ List.replicate 4 (.run 4) ++
    [.cancel 1, .cancel 3, .cancel 6]

/-- A box is opened and ends. -/
def endedBox : List Event :=
  .addVote ⟨6, plainCall 7 1 5 1 [1], clockAt 100⟩ :: List.replicate 9 (.run 0) ++ List.replicate 7 (.run 1)

/-- The first call has its receipt, and its vote is not in the box. -/
def voteGone (s : State) : Bool :=
  match s.threads.head? with
  | some (.addVote a _ (.returned (.ok _))) =>
    (s.heap.box? a.id a.hash).any fun box => box.votes.get? a.call.signer = none
  | _ => false

/-- Two runs in which all calls are over. In the first no order of the calls
gives their answers; in the second a vote that has its receipt is in no box. -/
theorem answers_of_no_order :
    (∃ s, Lts.Reach (system plainDeps oneSlot soleVoter) Lts.Free s ∧ (∀ t ∈ s.threads, t.finished = true) ∧
      ¬ ∃ l r, Sequential (exec plainDeps oneSlot) (createRound soleVoter 1 true) l r ∧
        ∀ x, x ∈ l ↔ ∃ t, s.threads[x.call]? = some t ∧ t.trace.op = some x.op ∧ t.trace.answer = some x.res) ∧
    ∃ s a against voted, Lts.Reach (system plainDeps plainConfig (twoVoters 7)) Lts.Free s ∧
      (∀ t ∈ s.threads, t.finished = true) ∧ s.threads.head? = some (.addVote a against (.returned (.ok voted))) ∧
      (s.heap.box? a.id a.hash).any (fun box => box.votes.get? a.call.signer = none) = true := by
  constructor
  · have hrun : ((system plainDeps oneSlot soleVoter).run (start oneSlot soleVoter) crossed).any fun s =>
        s.threads.all Thread.finished && decide ((answered s).map Item.call).Nodup &&
          (answered s).any (·.res.limitReached) &&
          (answered s).permutations'.all fun l =>
            (History.run (exec plainDeps oneSlot) (createRound soleVoter 1 true) (l.map Item.op)).all fun p =>
              p.2.all (!·.limitReached) := by decide +kernel
    obtain ⟨s, hs, hend⟩ := (Option.any_eq_true _ _).mp hrun
    simp only [Bool.and_eq_true, List.all_eq_true, decide_eq_true_eq, List.any_eq_true] at hend
    obtain ⟨⟨⟨hall, hnodup⟩, x, hx, hlimit⟩, hperm⟩ := hend
    refine ⟨s, .of_run (.init rfl) (fun _ _ _ => trivial) hs, hall, ?_⟩
    rintro ⟨l, r, hseq, hmem⟩
    have hp : l.Perm (answered s) := by
      rw [List.perm_ext_iff_of_nodup (.of_map _ hseq.once) (.of_map _ hnodup)]
      exact fun y => (hmem y).trans mem_answered.symm
    have hno := hperm l (List.mem_permutations'.mpr hp)
    rw [hseq.run, Option.all_some, List.all_eq_true] at hno
    have := hno x.res (List.mem_map_of_mem (hp.mem_iff.mpr hx))
    rw [hlimit] at this
    cases this
  · have hrun : ((system plainDeps plainConfig (twoVoters 7)).run (start plainConfig (twoVoters 7)) endedBox).any
      fun s =>
        s.threads.all Thread.finished && voteGone s := by decide +kernel
    obtain ⟨s, hs, hend⟩ := (Option.any_eq_true _ _).mp hrun
    rw [Bool.and_eq_true, List.all_eq_true] at hend
    obtain ⟨hall, hgone⟩ := hend
    unfold voteGone at hgone
    split at hgone
    next a against voted hvote =>
      exact ⟨s, a, against, voted, .of_run (.init rfl) (fun _ _ _ => trivial) hs, hall, hvote, hgone⟩
    next => cases hgone

end TeeProxy.Voting.Locks
