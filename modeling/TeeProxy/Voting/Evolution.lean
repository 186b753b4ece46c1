/-
How the boxes of a round change while goroutines interleave, and what follows
for the responses of `Service.Statuses`.

A step changes the view of one ID at most: a vote writes its box and may write
the finalized hash, an expiration deletes its box (`Alters`). So a status only
grows (`Status.Grows`), a finalized hash is written once, and it is the hash of
a finalized box of the ID (`View.Coherent`). A response inherits both: it is
coherent in itself (`statuses_coherent`), and a call made after another one
returned never shows less (`statuses_monotone`).
-/
import TeeProxy.Voting.Statuses

namespace TeeProxy.Voting

/-! ## Statuses and views grow -/

/-- A later status of the same box: its terms are the same, finalized stays
finalized, voters stay until the box expires, and an expired box changes no
more. -/
structure Status.Grows (st st' : Status) : Prop where
  instructionHash : st'.instructionHash = st.instructionHash
  startTime : st'.startTime = st.startTime
  endTime : st'.endTime = st.endTime
  threshold : st'.threshold = st.threshold
  cosignersThreshold : st'.cosignersThreshold = st.cosignersThreshold
  finalized : st.finalized = true → st'.finalized = true
  deleted : st.deleted = true → st' = st
  voters : st'.deleted = false → st.voters ⊆ st'.voters

theorem Status.Grows.refl (st : Status) : st.Grows st :=
  ⟨rfl, rfl, rfl, rfl, rfl, id, fun _ => rfl, fun _ => List.Subset.refl _⟩

theorem Status.Grows.trans {st st' st'' : Status} (h₁ : st.Grows st') (h₂ : st'.Grows st'') : st.Grows st'' where
  instructionHash := h₂.instructionHash.trans h₁.instructionHash
  startTime := h₂.startTime.trans h₁.startTime
  endTime := h₂.endTime.trans h₁.endTime
  threshold := h₂.threshold.trans h₁.threshold
  cosignersThreshold := h₂.cosignersThreshold.trans h₁.cosignersThreshold
  finalized hf := h₂.finalized (h₁.finalized hf)
  deleted hd := by
    have heq := h₁.deleted hd
    subst heq
    exact h₂.deleted hd
  voters hd := by
    have hd' : st'.deleted = false := by
      cases hst' : st'.deleted with
      | false => rfl
      | true => rw [h₂.deleted hst', hst'] at hd; cases hd
    exact List.Subset.trans (h₁.voters hd') (h₂.voters hd)

theorem mem_voters_status {box : VoteBox} {x : Address} : x ∈ box.status.voters ↔ x ∈ box.votes.keys :=
  (List.perm_insertionSort (· ≤ ·) box.votes.keys).mem_iff

theorem grows_castOn {dep : Deps} {policy : SigningPolicy} {call : Call} {clock : Clock} {box box' : VoteBox}
    {receipt : Receipt} {reached : Bool} (hd : box.deleted = false)
    (hc : castOn dep policy call clock box = (box', .ok (receipt, reached))) : box.status.Grows box'.status := by
  obtain ⟨-, -, hnew, voteHash, r, rfl, -, rfl⟩ := VoteBox.addVote_ok hc
  refine ⟨rfl, rfl, rfl, rfl, rfl, fun hf => ?_, fun hdel => ?_, fun _ x hx => ?_⟩
  · change (box.finalized || _) = true
    change box.finalized = true at hf
    rw [hf, Bool.true_or]
  · change box.deleted = true at hdel
    rw [hd] at hdel
    cases hdel
  · rw [mem_voters_status] at hx ⊢
    change x ∈ (box.votes.set call.signer _).keys
    rw [GoMap.keys_set_new hnew]
    exact List.mem_cons_of_mem _ hx

theorem grows_delete {box : VoteBox} (hclear : box.deleted = true → box.votes = ∅) :
    box.status.Grows box.delete.status := by
  refine ⟨rfl, rfl, rfl, rfl, rfl, id, fun hdel => ?_, fun hdel => by cases hdel⟩
  have hvoters : box.status.voters = [] := voters_eq_nil_iff.mpr (by rw [hclear hdel]; rfl)
  have hdeleted : box.status.deleted = true := hdel
  rw [status_delete, ← hvoters, ← hdeleted]

/-- What a view shows later. -/
structure View.Grows (v v' : View) : Prop where
  boxes : ∀ hash box, v.box? hash = some box → ∃ box', v'.box? hash = some box' ∧ box.status.Grows box'.status
  finalizedHash : v.finalizedHash ≠ 0 → v'.finalizedHash = v.finalizedHash

theorem View.Grows.refl (v : View) : v.Grows v := ⟨fun _ box hb => ⟨box, hb, .refl _⟩, fun _ => rfl⟩

theorem View.Grows.trans {v v' v'' : View} (h₁ : v.Grows v') (h₂ : v'.Grows v'') : v.Grows v'' where
  boxes hash box hb := by
    obtain ⟨box', hb', hg⟩ := h₁.boxes hash box hb
    obtain ⟨box'', hb'', hg'⟩ := h₂.boxes hash box' hb'
    exact ⟨box'', hb'', hg.trans hg'⟩
  finalizedHash hne := by
    have heq := h₁.finalizedHash hne
    exact (h₂.finalizedHash (heq ▸ hne)).trans heq

/-- A box of a view with one box put in: that box, or one that was there. -/
theorem View.box?_put {v : View} {hash x : Hash} {box b : VoteBox} {fin : Hash}
    (h : (v.put hash box fin).box? x = some b) : x = hash ∧ b = box ∨ v.box? x = some b := by
  simp only [View.put] at h
  split at h
  next heq => exact .inl ⟨heq, (Option.some.inj h).symm⟩
  next => exact .inr h

theorem View.Grows.put {v : View} {hash : Hash} {box : VoteBox} {fin : Hash}
    (hbox : ∀ box₀, v.box? hash = some box₀ → box₀.status.Grows box.status)
    (hfin : v.finalizedHash ≠ 0 → fin = v.finalizedHash) : v.Grows (v.put hash box fin) := by
  refine ⟨fun x box₀ hx => ?_, hfin⟩
  by_cases heq : x = hash
  · subst heq
    exact ⟨box, if_pos rfl, hbox box₀ hx⟩
  · exact ⟨box₀, (if_neg heq).trans hx, .refl _⟩

namespace Locks

/-! ## The votes of a run -/

def Thread.arg? : Thread → Option Arg
  | .addVote a _ _ => some a
  | _ => none

/-- The votes that were called for. -/
def State.votes (s : State) : List Arg := s.threads.filterMap Thread.arg?

section Votes

variable {dep : Deps} {cfg : Config} {policy : SigningPolicy} {s s' : State} {n : Nat}

theorem mem_votes {a : Arg} {against : List Nat} {pc : VotePc} (hn : s.threads[n]? = some (.addVote a against pc)) :
    a ∈ s.votes :=
  List.mem_filterMap.mpr ⟨_, List.mem_of_getElem? hn, rfl⟩

theorem subset_votes_set {t t' : Thread} {l : List Thread} (hn : s.threads[n]? = some t) (ht : t'.arg? = t.arg?) :
    s.votes ⊆ (s.threads.set n t' ++ l).filterMap Thread.arg? := by
  intro a ha
  obtain ⟨u, hu, hua⟩ := List.mem_filterMap.mp ha
  obtain ⟨m, hm⟩ := List.mem_iff_getElem?.mp hu
  rw [List.filterMap_append]
  refine List.mem_append_left _ (List.mem_filterMap.mpr ?_)
  by_cases heq : n = m
  · subst heq
    obtain rfl : t = u := Option.some.inj (hn.symm.trans hm)
    have hlt := (List.getElem?_eq_some_iff.mp hn).1
    exact ⟨t', List.mem_of_getElem? (List.getElem?_set_self hlt), ht.trans hua⟩
  · exact ⟨u, List.mem_of_getElem? ((List.getElem?_set_ne heq).trans hm), hua⟩

theorem votes_step (hs : Step dep cfg policy s s') : s.votes ⊆ s'.votes := by
  have hset : ∀ {n t t'}, s.threads[n]? = some t → t'.arg? = t.arg? → s.votes ⊆ (s.set n t').votes := by
    intro n t t' hn ht
    have := subset_votes_set (l := []) hn ht
    rwa [List.append_nil] at this
  cases hs with
  | addVote a | statuses id =>
    intro x hx
    simp only [State.votes, List.filterMap_append]
    exact List.mem_append_left _ hx
  | quiet hn hq => exact hset hn (by cases hq <;> rfl)
  | publish hn => exact subset_votes_set hn rfl
  | early hn | full hn | reserve hn | buildFailed hn | firstFailed hn | vote hn | expire hn => exact hset hn rfl

end Votes

/-! ## What a step changes -/

section Alters

variable (dep : Deps) (cfg : Config) (policy : SigningPolicy)

/-- What a step does to the views: nothing, a vote on the box of its hash, or
the end of a box. A vote that opens its box finds none there. -/
inductive Alters (s s' : State) : Prop
  | same : s'.heap = s.heap → Alters s s'
  | voted {a existsB box box' fin res} : a ∈ s.votes →
      (s.heap.box? a.id a.hash = some box ∨
        s.heap.box? a.id a.hash = none ∧ buildVoteBox dep cfg policy a.call a.clock.build = .ok box) →
      voteEffect dep policy a existsB box (s.heap.finalizedHash a.id) = (box', fin, res) →
      (∀ id, s'.heap.view id = if id = a.id then (s.heap.view a.id).put a.hash box' fin else s.heap.view id) →
      Alters s s'
  | expired {id hash box} : s.heap.box? id hash = some box →
      (∀ id', s'.heap.view id' =
        if id' = id then (s.heap.view id).put hash box.delete (s.heap.finalizedHash id) else s.heap.view id') →
      Alters s s'

end Alters

section Steps

variable {dep : Deps} {cfg : Config} {policy : SigningPolicy} {s s' : State}

theorem alters (hg : Guarded dep cfg policy s) (hs : Step dep cfg policy s s') : Alters dep cfg policy s s' := by
  have hbox : ∀ {b d id hash}, s.heap.voteBox[b]? = some d → s.heap.IsBox b id hash →
      s.heap.box? id hash = some d.box := by
    rintro b d id hash hd ⟨d', hd', rfl, rfl⟩
    obtain rfl : d = d' := Option.some.inj (hd.symm.trans hd')
    exact hg.heap.box?_iff.mpr ⟨b, hd⟩
  have hcell : ∀ {ref c id}, s.heap.voteBoxes[ref]? = some c → s.heap.IsFor ref id →
      s.heap.finalizedHash id = c.finalizedHash := by
    rintro ref c id hc ⟨c', hc', rfl⟩
    obtain rfl : c = c' := Option.some.inj (hc.symm.trans hc')
    exact hg.heap.finalizedHash_eq hc
  cases hs with
  | addVote | statuses | quiet | early | full | reserve | buildFailed | firstFailed => exact .same rfl
  | publish hn heff =>
    obtain ⟨hslot, hno, hbuild⟩ := hg.knows _ _ hn
    rw [hg.heap.slotFinalizedHash_eq hslot] at heff
    exact .voted (mem_votes hn) (.inr ⟨hno, hbuild⟩) heff (hg.heap.view_publish hslot hno)
  | vote hn hc hd heff =>
    obtain ⟨hfor, hisBox⟩ := hg.knows _ _ hn
    rw [← hcell hc hfor] at heff
    exact .voted (mem_votes hn) (.inl (hbox hd hisBox)) heff (hg.heap.view_write hfor hisBox)
  | @expire n id hash ref b c d hn hc hd =>
    obtain ⟨hfor, hisBox⟩ := hg.knows _ _ hn
    rw [← hcell hc hfor]
    exact .expired (hbox hd hisBox) (hg.heap.view_write hfor hisBox)

/-- A finalized hash is written once, by the vote that finalizes the box. -/
theorem voteEffect_crowns {a : Arg} {existsB : Bool} {box box' : VoteBox} {fin fin' : Hash} {res : Except VoteErr Voted}
    (h : voteEffect dep policy a existsB box fin = (box', fin', res)) :
    (fin' = fin ∨ fin = 0 ∧ fin' = a.hash ∧ box'.finalized = true) ∧
      (box'.finalized = true → box.finalized = true ∨ fin' ≠ 0 ∨ a.hash = 0 ∨
        isRestore dep a.call.data.opType a.call.data.opCommand = true) := by
  rcases voteEffect_cases h with ⟨e, -, rfl, hbox⟩ | ⟨voted, -, hd, hc⟩
  · refine ⟨.inl rfl, fun hf => .inl ?_⟩
    rcases hbox with rfl | ⟨voteHash, rfl⟩
    · exact hf
    · exact hf
  · obtain ⟨voted', heff, -, hreached⟩ := @voteEffect_taken _ _ _ existsB _ _ fin _ _ hd hc
    rw [heff] at h
    have hfin : (if voted.reached && !isRestore dep a.call.data.opType a.call.data.opCommand then
        (if fin = 0 then a.hash else fin) else fin) = fin' := congrArg (fun p => p.2.1) h
    have hrec := (castOn_ok hc).finalized
    cases hr : voted.reached with
    | false =>
      rw [hr] at hfin hrec
      exact ⟨.inl hfin.symm, fun hf => .inl (by rwa [hrec, Bool.or_false] at hf)⟩
    | true =>
      rw [hr, Bool.or_true] at hrec
      cases hrestore : isRestore dep a.call.data.opType a.call.data.opCommand with
      | true =>
        rw [hr, hrestore] at hfin
        exact ⟨.inl hfin.symm, fun _ => .inr (.inr (.inr rfl))⟩
      | false =>
        rw [hr, hrestore] at hfin
        simp only [Bool.not_false, Bool.and_self, if_true] at hfin
        by_cases hzero : fin = 0
        · rw [if_pos hzero] at hfin
          subst hfin
          refine ⟨.inr ⟨hzero, rfl, hrec⟩, fun _ => ?_⟩
          by_cases hz : a.hash = 0
          · exact .inr (.inr (.inl hz))
          · exact .inr (.inl hz)
        · rw [if_neg hzero] at hfin
          subst hfin
          exact ⟨.inl rfl, fun _ => .inr (.inl hzero)⟩

theorem voteEffect_grows {a : Arg} {existsB : Bool} {box box' : VoteBox} {fin fin' : Hash} {res : Except VoteErr Voted}
    (h : voteEffect dep policy a existsB box fin = (box', fin', res)) : box.status.Grows box'.status := by
  rcases voteEffect_cases h with ⟨e, -, -, rfl | ⟨voteHash, rfl⟩⟩ | ⟨voted, -, hd, hc⟩
  · exact .refl _
  · exact .refl _
  · exact grows_castOn hd hc

theorem voteEffect_cleared {a : Arg} {existsB : Bool} {box box' : VoteBox} {fin fin' : Hash}
    {res : Except VoteErr Voted}
    (h : voteEffect dep policy a existsB box fin = (box', fin', res)) (hbox : box.deleted = true → box.votes = ∅)
    (hdel : box'.deleted = true) : box'.votes = ∅ := by
  rcases voteEffect_cases h with ⟨e, -, -, rfl | ⟨voteHash, rfl⟩⟩ | ⟨voted, -, hd, hc⟩
  · exact hbox hdel
  · exact hbox hdel
  · rw [(castOn_ok hc).deleted, hd] at hdel
    cases hdel

/-- What the view of an ID keeps while votes are made. -/
structure Coherent (dep : Deps) (votes : List Arg) (id : Hash) (v : View) : Prop where
  hash : (∀ a ∈ votes, dep.instruction.hashFixed a.call.data.toDataFixed = .ok a.hash) →
    ∀ hash box, v.box? hash = some box → box.iHash = hash
  cleared : ∀ hash box, v.box? hash = some box → box.deleted = true → box.votes = ∅
  crowned : v.finalizedHash ≠ 0 → ∃ box, v.box? v.finalizedHash = some box ∧ box.finalized = true
  named : (∀ a ∈ votes, a.id = id → a.hash ≠ 0 ∧ isRestore dep a.call.data.opType a.call.data.opCommand = false) →
    ∀ hash box, v.box? hash = some box → box.finalized = true → v.finalizedHash ≠ 0

theorem Coherent.mono {votes votes' : List Arg} {id : Hash} {v : View} (h : Coherent dep votes id v)
    (hsub : votes ⊆ votes') : Coherent dep votes' id v :=
  ⟨fun hh => h.hash fun a ha => hh a (hsub ha), h.cleared, h.crowned, fun hn => h.named fun a ha => hn a (hsub ha)⟩

theorem Coherent.voted {votes : List Arg} {a : Arg} {v : View} {existsB : Bool} {box box' : VoteBox} {fin : Hash}
    {res : Except VoteErr Voted} (h : Coherent dep votes a.id v) (ha : a ∈ votes)
    (hbox : v.box? a.hash = some box ∨
      v.box? a.hash = none ∧ buildVoteBox dep cfg policy a.call a.clock.build = .ok box)
    (heff : voteEffect dep policy a existsB box v.finalizedHash = (box', fin, res)) :
    Coherent dep votes a.id (v.put a.hash box' fin) := by
  obtain ⟨hfin, hfinal⟩ := voteEffect_crowns heff
  refine ⟨fun hh hash b hb => ?_, fun hash b hb hdel => ?_, fun hne => ?_, fun hn hash b hb hf => ?_⟩
  · rcases View.box?_put hb with ⟨rfl, rfl⟩ | hb
    · have hiHash : b.iHash = box.iHash := (voteEffect_grows heff).instructionHash
      rw [hiHash]
      rcases hbox with hbox | ⟨-, hbuild⟩
      · exact h.hash hh _ _ hbox
      · exact Except.ok.inj ((buildVoteBox_ok hbuild).iHash.symm.trans (hh a ha))
    · exact h.hash hh hash b hb
  · rcases View.box?_put hb with ⟨rfl, rfl⟩ | hb
    · refine voteEffect_cleared heff (fun hd => ?_) hdel
      rcases hbox with hbox | ⟨-, hbuild⟩
      · exact h.cleared _ _ hbox hd
      · exact (buildVoteBox_ok hbuild).votes
    · exact h.cleared hash b hb hdel
  · change fin ≠ 0 at hne
    change ∃ b, (if fin = a.hash then some box' else v.box? fin) = some b ∧ b.finalized = true
    rcases hfin with rfl | ⟨-, rfl, hf⟩
    · obtain ⟨b, hb, hf⟩ := h.crowned hne
      by_cases heq : v.finalizedHash = a.hash
      · rw [if_pos heq]
        rw [heq] at hb
        rcases hbox with hbox | ⟨hno, -⟩
        · obtain rfl : box = b := Option.some.inj (hbox.symm.trans hb)
          exact ⟨box', rfl, (voteEffect_grows heff).finalized hf⟩
        · rw [hno] at hb; cases hb
      · rw [if_neg heq]
        exact ⟨b, hb, hf⟩
    · rw [if_pos rfl]
      exact ⟨box', rfl, hf⟩
  · -- the hash that was there stays, and a new one is that of the vote
    have hkept : v.finalizedHash ≠ 0 → fin ≠ 0 := by
      intro hne
      rcases hfin with rfl | ⟨hzero, -, -⟩
      · exact hne
      · exact absurd hzero hne
    change fin ≠ 0
    rcases View.box?_put hb with ⟨rfl, rfl⟩ | hb
    · obtain ⟨hzero, hrestore⟩ := hn a ha rfl
      rcases hfinal hf with hf | hne | hz | hr
      · rcases hbox with hbox | ⟨-, hbuild⟩
        · exact hkept (h.named hn _ _ hbox hf)
        · rw [(buildVoteBox_ok hbuild).finalized] at hf; cases hf
      · exact hne
      · exact absurd hz hzero
      · rw [hrestore] at hr; cases hr
    · exact hkept (h.named hn hash b hb hf)

theorem Coherent.expired {votes : List Arg} {id hash : Hash} {v : View} {box : VoteBox} (h : Coherent dep votes id v)
    (hbox : v.box? hash = some box) : Coherent dep votes id (v.put hash box.delete v.finalizedHash) := by
  refine ⟨fun hh x b hb => ?_, fun x b hb hdel => ?_, fun hne => ?_, fun hn x b hb hf => ?_⟩
  · rcases View.box?_put hb with ⟨rfl, rfl⟩ | hb
    · exact h.hash hh x box hbox
    · exact h.hash hh x b hb
  · rcases View.box?_put hb with ⟨rfl, rfl⟩ | hb
    · rfl
    · exact h.cleared x b hb hdel
  · obtain ⟨b, hb, hf⟩ := h.crowned hne
    change ∃ b, (if v.finalizedHash = hash then some box.delete else v.box? v.finalizedHash) = some b ∧
      b.finalized = true
    by_cases heq : v.finalizedHash = hash
    · rw [if_pos heq]
      rw [heq] at hb
      obtain rfl : box = b := Option.some.inj (hbox.symm.trans hb)
      exact ⟨_, rfl, hf⟩
    · rw [if_neg heq]
      exact ⟨b, hb, hf⟩
  · change v.finalizedHash ≠ 0
    rcases View.box?_put hb with ⟨rfl, rfl⟩ | hb
    · exact h.named hn x box hbox hf
    · exact h.named hn x b hb hf

theorem coherent (h : Lts.Reach (system dep cfg policy) Lts.Free s) (id : Hash) :
    Coherent dep s.votes id (s.heap.view id) := by
  refine h.invariant (fun s => ∀ id, Coherent dep s.votes id (s.heap.view id)) ?_ ?_ id
  · rintro s rfl id
    refine ⟨fun _ hash box hb => ?_, fun hash box hb => ?_, fun hne => absurd rfl hne, fun _ hash box hb => ?_⟩
    · cases hb
    · cases hb
    · cases hb
  · intro s e s' hr ih _ hs id
    have hstep := step_inv hs
    refine Coherent.mono ?_ (votes_step hstep)
    cases alters (guarded hr) hstep with
    | same heq => rw [heq]; exact ih id
    | @voted a _ _ _ _ _ ha hbox heff hview =>
      rw [hview]
      split
      next heq => subst heq; exact (ih a.id).voted ha hbox heff
      next => exact ih id
    | @expired id' _ _ hbox hview =>
      rw [hview]
      split
      next heq => subst heq; exact (ih id).expired hbox
      next => exact ih id

/-- **What the maps show of an ID only grows.** -/
theorem view_grows (h : Lts.Reach (system dep cfg policy) Lts.Free s) (hs : Step dep cfg policy s s') (id : Hash) :
    (s.heap.view id).Grows (s'.heap.view id) := by
  cases alters (guarded h) hs with
  | same heq => rw [heq]; exact .refl _
  | @voted a _ box _ _ _ ha hbox heff hview =>
    rw [hview]
    split
    next heq =>
      subst heq
      refine .put (fun box₀ hbox₀ => ?_) fun hne => ?_
      · rcases hbox with hbox | ⟨hno, -⟩
        · obtain rfl : box = box₀ := Option.some.inj (hbox.symm.trans hbox₀)
          exact voteEffect_grows heff
        · cases hno.symm.trans hbox₀
      · rcases (voteEffect_crowns heff).1 with hfin | ⟨hzero, -⟩
        · exact hfin
        · exact absurd hzero hne
    next => exact .refl _
  | @expired id' hash box hbox hview =>
    rw [hview]
    split
    next heq =>
      subst heq
      refine .put (fun box₀ hbox₀ => ?_) fun _ => rfl
      obtain rfl : box = box₀ := Option.some.inj (hbox.symm.trans hbox₀)
      exact grows_delete ((coherent h id).cleared hash box hbox)
    next => exact .refl _

end Steps

/-! ## A response is coherent -/

section Boxes

variable {h : Heap} {id : Hash}

theorem mem_boxesOf (hok : h.OK) {box : VoteBox} : box ∈ boxesOf h id ↔ ∃ hash, h.box? id hash = some box := by
  cases hget : h.voting.get? id with
  | none => simp [boxesOf, Heap.box?, hget]
  | some ref =>
    obtain ⟨c, hc, -⟩ := (hok.voting id ref).mp hget
    simp only [boxesOf, Heap.box?, Heap.find, hget, hc, Option.bind_some, Option.map_some, Option.getD_some,
      List.mem_filterMap, GoMap.mem_values, Option.bind_eq_some_iff]
    constructor
    · rintro ⟨b, ⟨hash, hb⟩, hbox⟩
      exact ⟨hash, b, hb, hbox⟩
    · rintro ⟨hash, b, hb, hbox⟩
      exact ⟨b, ⟨hash, hb⟩, hbox⟩

/-- The boxes of an ID have the hashes they are stored under, so no two have
the same. -/
theorem nodup_boxesOf (hok : h.OK) (hhash : ∀ hash box, h.box? id hash = some box → box.iHash = hash) :
    ((boxesOf h id).map VoteBox.iHash).Nodup := by
  cases hget : h.voting.get? id with
  | none => simp [boxesOf, hget]
  | some ref =>
    have hfor := (hok.voting id ref).mp hget
    obtain ⟨c, hc, -⟩ := (hok.voting id ref).mp hget
    have hkeys : ∀ l : List (Sigma fun _ : Hash => Nat), (∀ e ∈ l, c.m.get? e.1 = some e.2) →
        ((l.map (·.2)).filterMap fun b => h.voteBox[b]?.map (·.box)).map VoteBox.iHash = l.map (·.1) := by
      intro l hl
      induction l with
      | nil => rfl
      | cons e l ih =>
        obtain ⟨d, hd, hid, hdh⟩ := (hok.find ref e.2 id e.1 hfor).mp (by
          rw [Heap.find, hc]; exact hl e List.mem_cons_self)
        have hbox : d.box.iHash = e.1 := hhash e.1 d.box (hok.box?_iff.mpr ⟨e.2, by rw [hd, ← hid, ← hdh]⟩)
        rw [List.map_cons, List.filterMap_cons_some (by rw [hd]; rfl), List.map_cons, List.map_cons, hbox,
          ih fun e' he' => hl e' (List.mem_cons_of_mem _ he')]
    simp only [boxesOf, hget, hc, Option.bind_some, Option.map_some, Option.getD_some]
    rw [GoMap.values, hkeys c.m.entries fun e he => GoMap.mem_entries.mp he]
    exact c.m.nodup_keys

end Boxes

section Responses

variable {dep : Deps} {cfg : Config} {policy : SigningPolicy} {ok : Observed → Event → Prop} {s s₁ s₂ : Observed}

theorem subset_votes (hr : Lts.Reach (observed dep cfg policy) ok s₁)
    (hl : Lts.Later (observed dep cfg policy) ok s₁ s) :
    s₁.locks.votes ⊆ s.locks.votes := by
  refine hl.relation (fun s s' => s.locks.votes ⊆ s'.locks.votes) (fun s => List.Subset.refl _)
    (fun _ _ _ h₁ h₂ => List.Subset.trans h₁ h₂) ?_ hr
  intro s e s' _ _ hs
  obtain ⟨locks, hl, rfl⟩ := Option.map_eq_some_iff.mp hs
  exact votes_step (step_inv hl)

theorem map_instructionHash {sts : List Status} {boxes : List VoteBox}
    (h : List.Forall₂ (fun st box => st = box.status ∨ st = box.delete.status) sts boxes) :
    sts.map Status.instructionHash = boxes.map VoteBox.iHash := by
  induction h with
  | nil => rfl
  | cons hst _ ih =>
    rw [List.map_cons, List.map_cons, ih]
    rcases hst with rfl | rfl <;> rfl

theorem exists_left {α β : Type} {R : α → β → Prop} {l : List α} {l' : List β} (h : List.Forall₂ R l l') {b : β}
    (hb : b ∈ l') : ∃ a ∈ l, R a b := by
  induction h with
  | nil => cases hb
  | cons hr _ ih =>
    rcases List.mem_cons.mp hb with rfl | hb
    · exact ⟨_, List.mem_cons_self, hr⟩
    · obtain ⟨a, ha, hr⟩ := ih hb
      exact ⟨a, List.mem_cons_of_mem _ ha, hr⟩

theorem Shows.status_of_box {h h' : Heap} {r : Statuses} (hshows : Shows h h' r) (hok : h.OK) {hash : Hash}
    {box : VoteBox}
    (hbox : h.box? r.instructionID hash = some box) :
    ∃ st ∈ r.status, st = box.status ∨ st = box.delete.status := by
  obtain ⟨boxes, hperm, hstatus⟩ := hshows.boxes
  exact exists_left hstatus (hperm.mem_iff.mpr ((mem_boxesOf hok).mpr ⟨hash, hbox⟩))

theorem Shows.box_of_status {h h' : Heap} {r : Statuses} (hshows : Shows h h' r) (hok : h.OK) {st : Status}
    (hst : st ∈ r.status) :
    ∃ hash box, h.box? r.instructionID hash = some box ∧ (st = box.status ∨ st = box.delete.status) := by
  obtain ⟨boxes, hperm, hstatus⟩ := hshows.boxes
  have hflip : List.Forall₂ (fun (box : VoteBox) st => st = box.status ∨ st = box.delete.status) boxes r.status :=
    hstatus.flip
  obtain ⟨box, hbox, hrel⟩ := exists_left hflip hst
  obtain ⟨hash, hbox⟩ := (mem_boxesOf hok).mp (hperm.mem_iff.mp hbox)
  exact ⟨hash, box, hbox, hrel⟩

/-- **A response is coherent**, in every interleaving. No two of its statuses
have the same instruction hash; a finalized hash that it shows is that of a
status it shows as finalized; and unless a vote on its ID was for a restore, a
status that is finalized comes with a finalized hash. -/
theorem statuses_coherent (h : Lts.Reach (observed dep cfg policy) Lts.Free s) {n : Nat} {r : Statuses}
    (hres : (s.reports n).result = some (.ok r))
    (hhash : ∀ a ∈ s.locks.votes, dep.instruction.hashFixed a.call.data.toDataFixed = .ok a.hash) :
    (r.status.map Status.instructionHash).Nodup ∧
    (r.finalizedHash ≠ 0 → ∃ st ∈ r.status, st.instructionHash = r.finalizedHash ∧ st.finalized = true) ∧
    ((∀ a ∈ s.locks.votes, a.id = r.instructionID →
        a.hash ≠ 0 ∧ isRestore dep a.call.data.opType a.call.data.opCommand = false) →
      ∀ st ∈ r.status, st.finalized = true → r.finalizedHash ≠ 0) := by
  obtain ⟨s₀, ref, htook, hshows⟩ := snapshot h hres
  have hreach := locks_reach htook.reach
  have hok := (guarded hreach).heap
  have hcoh := coherent hreach r.instructionID
  have hsub := subset_votes htook.reach htook.later
  have hhash₀ := hcoh.hash fun a ha => hhash a (hsub ha)
  refine ⟨?_, fun hne => ?_, fun hplain st hst hf => ?_⟩
  · obtain ⟨boxes, hperm, hstatus⟩ := hshows.boxes
    rw [map_instructionHash hstatus, (hperm.map _).nodup_iff]
    exact nodup_boxesOf hok hhash₀
  · rw [hshows.finalizedHash] at hne ⊢
    obtain ⟨box, hbox, hf⟩ := hcoh.crowned hne
    have hiHash : box.iHash = s₀.locks.heap.finalizedHash r.instructionID := hhash₀ _ box hbox
    obtain ⟨st, hst, rfl | rfl⟩ := hshows.status_of_box hok hbox
    · exact ⟨_, hst, hiHash, hf⟩
    · exact ⟨_, hst, hiHash, hf⟩
  · obtain ⟨hash, box, hbox, hrel⟩ := hshows.box_of_status hok hst
    have hbf : box.finalized = true := by rcases hrel with rfl | rfl <;> exact hf
    rw [hshows.finalizedHash]
    exact hcoh.named (fun a ha => hplain a (hsub ha)) hash box hbox hbf

end Responses

theorem statuses_coherent_acrossExpiry :
    ∃ s : Observed, (s.reports 5).result = some (.ok acrossExpiry) ∧
      (acrossExpiry.status.map Status.instructionHash).Nodup ∧
      ∃ st ∈ acrossExpiry.status, st.instructionHash = 6 ∧ st.finalized = true := by
  have hrun : ((observed plainDeps plainConfig (twoVoters 7)).run ⟨start plainConfig (twoVoters 7), fun _ => .new⟩
      readAcrossExpiry).any fun s => decide ((s.reports 5).result = some (.ok acrossExpiry) ∧
        ∀ a ∈ s.locks.votes, plainDeps.instruction.hashFixed a.call.data.toDataFixed = .ok a.hash) := by
    decide +kernel
  obtain ⟨s, hs, hend⟩ := (Option.any_eq_true _ _).mp hrun
  obtain ⟨hres, hhash⟩ := of_decide_eq_true hend
  have hreach : Lts.Reach (observed plainDeps plainConfig (twoVoters 7)) Lts.Free s :=
    .of_run (.init rfl) (fun _ _ _ => trivial) hs
  obtain ⟨hnodup, hfin, -⟩ := statuses_coherent hreach hres hhash
  exact ⟨s, hres, hnodup, hfin (by decide)⟩

/-! ## Responses only grow -/

section Responses

variable {dep : Deps} {cfg : Config} {policy : SigningPolicy} {ok : Observed → Event → Prop} {s s₁ s₂ : Observed}

theorem view_grows_later (hr : Lts.Reach (observed dep cfg policy) ok s₁)
    (hl : Lts.Later (observed dep cfg policy) ok s₁ s) (id : Hash) :
    (s₁.locks.heap.view id).Grows (s.locks.heap.view id) := by
  refine hl.relation (fun s s' => (s.locks.heap.view id).Grows (s'.locks.heap.view id)) (fun _ => .refl _)
    (fun _ _ _ h₁ h₂ => h₁.trans h₂) ?_ hr
  intro s e s' hreach _ hs
  obtain ⟨locks, hl, rfl⟩ := Option.map_eq_some_iff.mp hs
  exact view_grows (locks_reach hreach) (step_inv hl) id

theorem box?_of_isBox {h : Heap} (hok : h.OK) {b : Nat} {id hash : Hash} (hb : h.IsBox b id hash) :
    ∃ d, h.voteBox[b]? = some d ∧ h.box? id hash = some d.box := by
  obtain ⟨d, hd, rfl, rfl⟩ := hb
  exact ⟨d, hd, hok.box?_iff.mpr ⟨b, hd⟩⟩

/-- What a response shows is no more than the boxes are by then. -/
theorem readRule_behind (hr : Lts.Reach (observed dep cfg policy) ok s₁) : ReadRule dep cfg policy ok s₁
    (fun s _ id _ todo status => (∀ b ∈ todo, ∃ hash, s.locks.heap.IsBox b id hash) ∧
      ∀ st ∈ status, ∃ hash box, s.locks.heap.box? id hash = some box ∧ st.Grows box.status)
    (fun s _ r => (r.finalizedHash ≠ 0 → s.locks.heap.finalizedHash r.instructionID = r.finalizedHash) ∧
      ∀ st ∈ r.status, ∃ hash box, s.locks.heap.box? r.instructionID hash = some box ∧ st.Grows box.status) where
  start s n id ref c hl hn hfor hc := by
    refine ⟨fun b hb => ?_, fun st hst => by cases hst⟩
    obtain ⟨hash, hget⟩ := GoMap.mem_values.mp hb
    have hok := (guarded (locks_reach (hr.later hl))).heap
    exact ⟨hash, (hok.find ref b id hash hfor).mp (by rw [Heap.find, hc]; exact hget)⟩
  pick s n id ref k b todo status h hb := by
    refine ⟨fun x hx => h.1 x ?_, h.2⟩
    rcases List.mem_cons.mp hx with rfl | hx
    · exact List.mem_of_getElem? hb
    · exact List.mem_of_mem_eraseIdx hx
  read s n id ref b todo status hl h := by
    refine ⟨fun x hx => h.1 x (List.mem_cons_of_mem _ hx), fun st hst => ?_⟩
    rcases List.mem_append.mp hst with hst | hst
    · exact h.2 st hst
    · obtain ⟨hash, hb⟩ := h.1 b List.mem_cons_self
      obtain ⟨d, hd, hbox⟩ := box?_of_isBox (guarded (locks_reach (hr.later hl))).heap hb
      rw [hd] at hst
      obtain rfl : st = d.box.status := List.mem_singleton.mp hst
      exact ⟨hash, d.box, hbox, .refl _⟩
  finish s n id ref c status hl h hfor hc := by
    obtain ⟨c', hc', rfl⟩ := hfor
    obtain rfl : c = c' := Option.some.inj (hc.symm.trans hc')
    exact ⟨fun _ => (guarded (locks_reach (hr.later hl))).heap.finalizedHash_eq hc, h.2⟩
  goOn s e s' n id ref todo status hl he hs hstays h := by
    refine ⟨fun b hb => ?_, fun st hst => ?_⟩
    · obtain ⟨hash, hbox⟩ := h.1 b hb
      exact ⟨hash, (hstays.boxes b hash hbox).isBox hbox⟩
    · obtain ⟨hash, box, hbox, hg⟩ := h.2 st hst
      obtain ⟨box', hbox', hg'⟩ := (view_grows_later (hr.later hl) (Lts.Later.refl.step he hs) id).boxes hash box hbox
      exact ⟨hash, box', hbox', hg.trans hg'⟩
  keep s e s' n r hl he hs h := by
    have hgrow := view_grows_later (hr.later hl) (Lts.Later.refl.step he hs) r.instructionID
    refine ⟨fun hne => ?_, fun st hst => ?_⟩
    · have heq : (s.locks.heap.view r.instructionID).finalizedHash = r.finalizedHash := h.1 hne
      exact (hgrow.finalizedHash (heq ▸ hne)).trans heq
    · obtain ⟨hash, box, hbox, hg⟩ := h.2 st hst
      obtain ⟨box', hbox', hg'⟩ := hgrow.boxes hash box hbox
      exact ⟨hash, box', hbox', hg.trans hg'⟩

/-- What a call made after `s₁` shows is no less than the boxes were in `s₁`. -/
theorem readRule_since (hr : Lts.Reach (observed dep cfg policy) ok s₁) : ReadRule dep cfg policy ok s₁
    (fun s _ id _ todo status => ∀ hash box, s₁.locks.heap.box? id hash = some box →
      (∃ b ∈ todo, s.locks.heap.IsBox b id hash) ∨ ∃ st ∈ status, box.status.Grows st)
    (fun _ _ r => (s₁.locks.heap.finalizedHash r.instructionID ≠ 0 →
        r.finalizedHash = s₁.locks.heap.finalizedHash r.instructionID) ∧
      ∀ hash box, s₁.locks.heap.box? r.instructionID hash = some box → ∃ st ∈ r.status, box.status.Grows st) where
  start s n id ref c hl hn hfor hc := by
    intro hash box hbox
    have hok := (guarded (locks_reach (hr.later hl))).heap
    obtain ⟨box', hbox', -⟩ := (view_grows_later hr hl id).boxes hash box hbox
    obtain ⟨b, hb⟩ := hok.box?_iff.mp hbox'
    have hisBox : s.locks.heap.IsBox b id hash := ⟨_, hb, rfl, rfl⟩
    have hfind := (hok.find ref b id hash hfor).mpr hisBox
    rw [Heap.find, hc] at hfind
    exact .inl ⟨b, GoMap.mem_values.mpr ⟨hash, hfind⟩, hisBox⟩
  pick s n id ref k b todo status h hb := by
    intro hash box hbox
    rcases h hash box hbox with ⟨x, hx, hisBox⟩ | hseen
    · obtain ⟨hlt, rfl⟩ := List.getElem?_eq_some_iff.mp hb
      exact .inl ⟨x, (List.getElem_cons_eraseIdx_perm hlt).mem_iff.mpr hx, hisBox⟩
    · exact .inr hseen
  read s n id ref b todo status hl h := by
    intro hash box hbox
    rcases h hash box hbox with ⟨x, hx, hisBox⟩ | ⟨st, hst, hg⟩
    · rcases List.mem_cons.mp hx with rfl | hx
      · obtain ⟨d, hd, hnow⟩ := box?_of_isBox (guarded (locks_reach (hr.later hl))).heap hisBox
        obtain ⟨box', hbox', hg⟩ := (view_grows_later hr hl id).boxes hash box hbox
        obtain rfl : d.box = box' := Option.some.inj (hnow.symm.trans hbox')
        exact .inr ⟨_, List.mem_append_right _ (by rw [hd]; exact List.mem_singleton_self _), hg⟩
      · exact .inl ⟨x, hx, hisBox⟩
    · exact .inr ⟨st, List.mem_append_left _ hst, hg⟩
  finish s n id ref c status hl h hfor hc := by
    obtain ⟨c', hc', rfl⟩ := hfor
    obtain rfl : c = c' := Option.some.inj (hc.symm.trans hc')
    refine ⟨fun hne => ?_, fun hash box hbox => ?_⟩
    · rw [← (guarded (locks_reach (hr.later hl))).heap.finalizedHash_eq hc]
      exact (view_grows_later hr hl c.id).finalizedHash hne
    · rcases h hash box hbox with ⟨b, hb, -⟩ | hseen
      · cases hb
      · exact hseen
  goOn s e s' n id ref todo status hl he hs hstays h := by
    intro hash box hbox
    rcases h hash box hbox with ⟨b, hb, hisBox⟩ | hseen
    · exact .inl ⟨b, hb, (hstays.boxes b hash hisBox).isBox hisBox⟩
    · exact .inr hseen
  keep s e s' n r hl he hs h := h

/-- **Responses only grow**, in every interleaving: a call made after another
on the same ID returned shows the same finalized hash, if there was one, and
each status of the first at a later point of its box's life. -/
theorem statuses_monotone (h : Lts.Reach (observed dep cfg policy) Lts.Free s₁)
    (hlater : Lts.Later (observed dep cfg policy) Lts.Free s₁ s₂) {m n : Nat} {r r' : Statuses}
    (hres : (s₁.reports m).result = some (.ok r)) (hnew : s₁.locks.threads.length ≤ n)
    (hres' : (s₂.reports n).result = some (.ok r')) (hid : r'.instructionID = r.instructionID) :
    (r.finalizedHash ≠ 0 → r'.finalizedHash = r.finalizedHash) ∧
    ∀ st ∈ r.status, ∃ st' ∈ r'.status, st.Grows st' := by
  obtain ⟨s₀, hinit, hl₀⟩ := h.origin
  have hr₀ : Lts.Reach (observed dep cfg policy) Lts.Free s₀ := .init hinit
  have hempty : s₀.locks.threads.length ≤ m := by rw [hinit]; exact Nat.zero_le m
  obtain ⟨hfin, hbehind⟩ := ((readRule_behind hr₀).holds hr₀ hl₀).answered m r hempty hres
  obtain ⟨hfin', hsince⟩ := ((readRule_since h).holds h hlater).answered n r' hnew hres'
  rw [hid] at hfin' hsince
  refine ⟨fun hne => ?_, fun st hst => ?_⟩
  · rw [hfin hne] at hfin'
    exact hfin' hne
  · obtain ⟨hash, box, hbox, hg⟩ := hbehind st hst
    obtain ⟨st', hst', hg'⟩ := hsince hash box hbox
    exact ⟨st', hst', hg.trans hg'⟩

end Responses

/-- A call between the two votes on a box, and one after both. -/
def readTwice : List Event × List Event :=
  (List.flatten [
    [.addVote ⟨6, plainCall 7 1 5 1 [1], clockAt 100⟩], List.replicate 9 (.run 0), [.statuses 1],
    List.replicate 3 (.run 2), [.pick 2 0, .run 2, .run 2, .run 2]],
  List.flatten [
    [.addVote ⟨6, plainCall 7 1 5 2 [2], clockAt 101⟩], List.replicate 11 (.run 3), [.statuses 1],
    List.replicate 3 (.run 4), [.pick 4 0, .run 4, .run 4, .run 4]])

theorem statuses_monotone_readTwice :
    ∃ (s₁ s₂ : Observed) (st st' : Status),
      (s₁.reports 2).result = some (.ok ⟨1, 0, [st]⟩) ∧ (s₂.reports 4).result = some (.ok ⟨1, 6, [st']⟩) ∧
      st.voters = [1] ∧ st'.voters = [1, 2] ∧ st.finalized = false ∧ st'.finalized = true ∧ st.Grows st' := by
  have hrun : ((observed plainDeps plainConfig (twoVoters 7)).run ⟨start plainConfig (twoVoters 7), fun _ => .new⟩
      readTwice.1).any fun s₁ => decide (
        (s₁.reports 2).result = some (.ok ⟨1, 0, [⟨6, false, false, 100, 160, 2, [1], 3, 0, 0⟩]⟩) ∧
        s₁.locks.threads.length ≤ 4) &&
      ((observed plainDeps plainConfig (twoVoters 7)).run s₁ readTwice.2).any fun s₂ => decide (
        (s₂.reports 4).result = some (.ok ⟨1, 6, [⟨6, true, false, 100, 160, 4, [1, 2], 3, 0, 0⟩]⟩)) := by
    decide +kernel
  obtain ⟨s₁, hs₁, hend⟩ := (Option.any_eq_true _ _).mp hrun
  obtain ⟨hend₁, hend₂⟩ := (Bool.and_eq_true _ _).mp hend
  obtain ⟨hres₁, hlen⟩ := of_decide_eq_true hend₁
  obtain ⟨s₂, hs₂, hend₂⟩ := (Option.any_eq_true _ _).mp hend₂
  have hres₂ := of_decide_eq_true hend₂
  have hreach : Lts.Reach (observed plainDeps plainConfig (twoVoters 7)) Lts.Free s₁ :=
    .of_run (.init rfl) (fun _ _ _ => trivial) hs₁
  have hlater : Lts.Later (observed plainDeps plainConfig (twoVoters 7)) Lts.Free s₁ s₂ :=
    .of_run .refl (fun _ _ _ => trivial) hs₂
  obtain ⟨st', hst', hg⟩ := (statuses_monotone hreach hlater hres₁ hlen hres₂ rfl).2 _ List.mem_cons_self
  rw [List.mem_singleton.mp hst'] at hg
  exact ⟨s₁, s₂, _, _, hres₁, hres₂, rfl, rfl, rfl, rfl, hg⟩

end Locks

end TeeProxy.Voting
