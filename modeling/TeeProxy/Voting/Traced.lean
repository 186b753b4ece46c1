/-
Boxes and the votes behind them, in every interleaving of a round.

Every accepted vote tells something of its box that stays true: it weighs at
least what the vote saw, a vote that opened it is its proposer's, a vote that
reached the threshold finalized it. In turn every stored box was opened by an
accepted vote, its weight is what the last vote of a provider saw, and if it
is finalized some vote reached its threshold. Expiry clears the votes and
keeps all of that.

The weight of a box only grows because the weights of the policy fit in 16
bits and nobody votes twice in a box.

Last, what a step does to the calls themselves: one that has returned stays
so, and none starts but by its own event.
-/
import TeeProxy.Voting.Linear
import TeeProxy.Voting.Tally

namespace TeeProxy.Voting.Locks

/-- A vote that was taken, among the traces of a run. -/
def Taken (ts : List Trace) (a : Arg) (voted : Voted) : Prop :=
  ∃ τ ∈ ts, τ.op = some (.vote a) ∧ τ.answer = some (.voted (.ok voted))

/-- What an accepted vote tells of its box. -/
structure Behind (policy : SigningPolicy) (a : Arg) (voted : Voted) (box : VoteBox) : Prop where
  provider : voted.isProvider = true ↔ a.call.signer ∈ policy.voters.voters
  weight : voted.votedWeight ≤ box.weight
  proposer : voted.startedBox = true → box.proposer = a.call.signer
  finalized : voted.reached = true → box.finalized = true

/-- The running weight is that of the votes in the map. -/
def VoteBox.Weighs (policy : SigningPolicy) (box : VoteBox) : Prop :=
  box.deleted = false → box.weight.toNat = box.votes.sumBy fun p _ => policy.weight p

/-- The accepted votes a stored box comes from. -/
structure Explained (policy : SigningPolicy) (acc : Arg → Voted → Prop) (id hash : Hash) (box : VoteBox) : Prop where
  opened : ∃ a voted, acc a voted ∧ a.id = id ∧ a.hash = hash ∧ voted.startedBox = true ∧ a.call.signer = box.proposer
  weight : box.weight = 0 ∨
    ∃ a voted, acc a voted ∧ a.id = id ∧ a.hash = hash ∧ voted.isProvider = true ∧ voted.votedWeight = box.weight
  finalized : box.finalized = true → ∃ a voted, acc a voted ∧ a.id = id ∧ a.hash = hash ∧ voted.reached = true
  weighs : VoteBox.Weighs policy box

/-- Votes and boxes agree. -/
structure Traced (policy : SigningPolicy) (acc : Arg → Voted → Prop) (look : Hash → Hash → Option VoteBox) : Prop where
  votes : ∀ a voted, acc a voted → ∃ box, look a.id a.hash = some box ∧ Behind policy a voted box
  boxes : ∀ id hash box, look id hash = some box → Explained policy acc id hash box

/-- Lookups after a box is stored. -/
def put (look : Hash → Hash → Option VoteBox) (id hash : Hash) (box : VoteBox) (id' hash' : Hash) : Option VoteBox :=
  if id' = id ∧ hash' = hash then some box else look id' hash'

section Votes

variable {dep : Deps} {policy : SigningPolicy} {a : Arg} {existsB : Bool} {box box' : VoteBox} {fin fin' : Hash}
  {voted : Voted} {acc : Arg → Voted → Prop} {look : Hash → Hash → Option VoteBox} {id hash : Hash}

theorem isProvider_iff (signer : Address) (policy : SigningPolicy) (cosigners : GoMap Address Bool) :
    (voterGroupCheck signer policy.voters.voterDataMap cosigners).1.isProvider = true ↔
      signer ∈ policy.voters.voters := by
  rw [policy.voters.mem_voters, GoMap.mem_keys]
  unfold voterGroupCheck
  cases policy.voters.voterDataMap.get? signer <;> cases isCosigner cosigners signer <;>
    simp [VoterGroup.ofBits, VoterGroup.isProvider]

/-- What a vote that is taken returns. -/
structure Tells (policy : SigningPolicy) (a : Arg) (existsB : Bool) (voted : Voted) (box box' : VoteBox) : Prop where
  provider : voted.isProvider = true ↔ a.call.signer ∈ policy.voters.voters
  weight : voted.votedWeight = box'.weight
  started : voted.startedBox = !existsB
  recorded : Recorded a.call a.clock box voted.reached box'
  added : box'.weight = box.weight + (voterGroupCheck a.call.signer policy.voters.voterDataMap box.proposal.cosigners).2
  open_ : box.deleted = false

theorem voteEffect_tells (h : voteEffect dep policy a existsB box fin = (box', fin', .ok voted)) :
    Tells policy a existsB voted box box' := by
  unfold voteEffect at h
  split at h
  · cases h
  next hd =>
  split at h
  · cases h
  next b receipt reached hc =>
  have hprovider := isProvider_iff a.call.signer policy box.proposal.cosigners
  have hadded : b.weight = box.weight +
      (voterGroupCheck a.call.signer policy.voters.voterDataMap box.proposal.cosigners).2 := by
    obtain ⟨-, -, -, voteHash, r, rfl, -, rfl⟩ := VoteBox.addVote_ok hc
    rfl
  have hrec := castOn_ok hc
  dsimp only at h
  split at h
  · cases h
    split
    · exact ⟨hprovider, rfl, rfl, hrec, hadded, by simpa using hd⟩
    · exact ⟨hprovider, rfl, rfl, hrec, hadded, by simpa using hd⟩
  · cases h
    exact ⟨hprovider, rfl, rfl, hrec, hadded, by simpa using hd⟩

theorem Tells.toNat_weight (ht : Tells policy a existsB voted box box') (hsum : policy.weightSum ≤ 65535)
    (hw : VoteBox.Weighs policy box) :
    box'.weight.toNat = box.weight.toNat + policy.weight a.call.signer ∧ VoteBox.Weighs policy box' := by
  have hvotes : box'.votes.sumBy (fun p _ => policy.weight p) =
      box.weight.toNat + policy.weight a.call.signer := by
    rw [ht.recorded.votes, GoMap.sumBy_set_new ht.recorded.new, hw ht.open_, Nat.add_comm]
  have hle := (tally_signers policy box').symm.le.trans (tally_le_weightSum policy box'.proposal box'.signers)
  rw [hvotes] at hle
  have hadd : box'.weight.toNat = box.weight.toNat + policy.weight a.call.signer := by
    rw [ht.added, UInt16.toNat_add, voterGroupCheck_weight]
    omega
  exact ⟨hadd, fun _ => hadd.trans hvotes.symm⟩

theorem Tells.behind (ht : Tells policy a existsB voted box box')
    (hproposer : existsB = false → box.proposer = a.call.signer) : Behind policy a voted box' := by
  refine ⟨ht.provider, by rw [ht.weight]; exact UInt16.le_refl _, fun hstarted => ?_, fun hreached => ?_⟩
  · rw [ht.started, Bool.not_eq_true'] at hstarted
    rw [ht.recorded.proposer, hproposer hstarted]
  · rw [ht.recorded.finalized, hreached, Bool.or_true]

theorem Behind.tells {a' : Arg} {voted' : Voted} (hb : Behind policy a' voted' box)
    (ht : Tells policy a existsB voted box box') (hsum : policy.weightSum ≤ 65535) (hw : VoteBox.Weighs policy box) :
    Behind policy a' voted' box' := by
  have hgrows := (ht.toNat_weight hsum hw).1
  have hle := UInt16.le_iff_toNat_le.mp hb.weight
  refine ⟨hb.provider, UInt16.le_iff_toNat_le.mpr (by omega), fun hstarted => ?_, fun hreached => ?_⟩
  · rw [ht.recorded.proposer, hb.proposer hstarted]
  · rw [ht.recorded.finalized, hb.finalized hreached, Bool.true_or]

/-! ## Storing a box -/

theorem Traced.congr {acc' : Arg → Voted → Prop} {look' : Hash → Hash → Option VoteBox} (h : Traced policy acc look)
    (hacc : ∀ a voted, acc' a voted ↔ acc a voted) (hlook : ∀ id hash, look' id hash = look id hash) :
    Traced policy acc' look' := by
  obtain rfl : acc' = acc := funext fun a => funext fun voted => propext (hacc a voted)
  obtain rfl : look' = look := funext fun id => funext fun hash => hlook id hash
  exact h

theorem Traced.rewrite (h : Traced policy acc look) (hbox : look id hash = some box)
    (hsame : box'.weight = box.weight ∧ box'.proposer = box.proposer ∧ box'.finalized = box.finalized)
    (hkept : box'.deleted = false → box.deleted = false ∧ box'.votes = box.votes) :
    Traced policy acc (put look id hash box') := by
  obtain ⟨hweight, hproposer, hfinalized⟩ := hsame
  refine ⟨fun a voted hacc => ?_, fun id' hash' b hb => ?_⟩
  · obtain ⟨b, hb, hbehind⟩ := h.votes a voted hacc
    unfold put
    split
    next heq =>
      rw [heq.1, heq.2, hbox] at hb
      cases hb
      refine ⟨box', rfl, hbehind.provider, ?_, fun hs => ?_, fun hr => ?_⟩
      · rw [hweight]; exact hbehind.weight
      · rw [hproposer]; exact hbehind.proposer hs
      · rw [hfinalized]; exact hbehind.finalized hr
    next => exact ⟨b, hb, hbehind⟩
  · unfold put at hb
    split at hb
    next heq =>
      cases hb
      have hexp := h.boxes id hash box hbox
      rw [heq.1, heq.2]
      refine ⟨by rw [hproposer]; exact hexp.opened, by rw [hweight]; exact hexp.weight,
        by rw [hfinalized]; exact hexp.finalized, fun hd => ?_⟩
      obtain ⟨hd', hvotes⟩ := hkept hd
      rw [hweight, hvotes]
      exact hexp.weighs hd'
    next => exact h.boxes id' hash' b hb

theorem Explained.mono {acc' : Arg → Voted → Prop} (h : Explained policy acc id hash box)
    (hacc : ∀ a voted, acc a voted → acc' a voted) : Explained policy acc' id hash box := by
  refine ⟨?_, ?_, fun hf => ?_, h.weighs⟩
  · obtain ⟨a, voted, ha, hrest⟩ := h.opened
    exact ⟨a, voted, hacc _ _ ha, hrest⟩
  · rcases h.weight with hzero | ⟨a, voted, ha, hrest⟩
    · exact .inl hzero
    · exact .inr ⟨a, voted, hacc _ _ ha, hrest⟩
  · obtain ⟨a, voted, ha, hrest⟩ := h.finalized hf
    exact ⟨a, voted, hacc _ _ ha, hrest⟩

/-- A box before the vote: stored and explained, or just opened. -/
def Before (dep : Deps) (policy : SigningPolicy) (look : Hash → Hash → Option VoteBox) (a : Arg) (existsB : Bool)
    (box : VoteBox) : Prop :=
  if existsB then look a.id a.hash = some box else look a.id a.hash = none ∧ Fresh dep policy a.call box

theorem Traced.explained_cast (h : Traced policy acc look) (hsum : policy.weightSum ≤ 65535)
    (hbefore : Before dep policy look a existsB box) (ht : Tells policy a existsB voted box box')
    {acc' : Arg → Voted → Prop} (hacc : ∀ a' voted', acc' a' voted' ↔ acc a' voted' ∨ a' = a ∧ voted' = voted) :
    Explained policy acc' a.id a.hash box' := by
  have hmono : ∀ a' voted', acc a' voted' → acc' a' voted' := fun a' voted' h => (hacc a' voted').mpr (.inl h)
  have hmine : acc' a voted := (hacc a voted).mpr (.inr ⟨rfl, rfl⟩)
  -- a new box stands for the votes it does not have yet
  have hold : VoteBox.Weighs policy box ∧
      (box.weight = 0 ∨ ∃ a' voted', acc' a' voted' ∧ a'.id = a.id ∧ a'.hash = a.hash ∧ voted'.isProvider = true ∧
        voted'.votedWeight = box.weight) ∧
      (box.finalized = true → ∃ a' voted', acc' a' voted' ∧ a'.id = a.id ∧ a'.hash = a.hash ∧ voted'.reached = true) ∧
      (∃ a' voted', acc' a' voted' ∧ a'.id = a.id ∧ a'.hash = a.hash ∧ voted'.startedBox = true ∧
        a'.call.signer = box.proposer) := by
    cases existsB with
    | true =>
      have hexp := (h.boxes _ _ _ hbefore).mono hmono
      exact ⟨hexp.weighs, hexp.weight, hexp.finalized, hexp.opened⟩
    | false =>
      obtain ⟨-, hfresh⟩ := hbefore
      refine ⟨fun _ => ?_, .inl hfresh.weight, fun hf => ?_, a, voted, hmine, rfl, rfl, ht.started,
        hfresh.proposer.symm⟩
      · rw [hfresh.weight, hfresh.votes]
        rfl
      · rw [hfresh.finalized] at hf
        cases hf
  obtain ⟨hweighs, hweight, hfinalized, hopened⟩ := hold
  obtain ⟨hgrows, hweighs'⟩ := ht.toNat_weight hsum hweighs
  refine ⟨by rw [ht.recorded.proposer]; exact hopened, ?_, fun hf => ?_, hweighs'⟩
  · by_cases hp : voted.isProvider = true
    · exact .inr ⟨a, voted, hmine, rfl, rfl, hp, ht.weight⟩
    · have hzero : policy.weight a.call.signer = 0 := SigningPolicy.weight_eq_zero fun hmem => hp (ht.provider.mpr hmem)
      have hsame : box'.weight = box.weight := UInt16.toNat_inj.mp (by omega)
      rw [hsame]
      exact hweight
  · rw [ht.recorded.finalized, Bool.or_eq_true] at hf
    rcases hf with hf | hreached
    · exact hfinalized hf
    · exact ⟨a, voted, hmine, rfl, rfl, hreached⟩

/-- **A vote that is taken** is behind its box, and explains it. -/
theorem Traced.cast (h : Traced policy acc look) (hsum : policy.weightSum ≤ 65535)
    (hbefore : Before dep policy look a existsB box) (ht : Tells policy a existsB voted box box')
    {acc' : Arg → Voted → Prop} (hacc : ∀ a' voted', acc' a' voted' ↔ acc a' voted' ∨ a' = a ∧ voted' = voted) :
    Traced policy acc' (put look a.id a.hash box') := by
  refine ⟨fun a' voted' ha' => ?_, fun id' hash' b hb => ?_⟩
  · rcases (hacc a' voted').mp ha' with hold | ⟨rfl, rfl⟩
    · obtain ⟨b, hb, hbehind⟩ := h.votes a' voted' hold
      unfold put
      split
      next heq =>
        rw [heq.1, heq.2] at hb
        cases existsB with
        | true =>
          cases hb.symm.trans hbefore
          exact ⟨box', rfl, hbehind.tells ht hsum (h.boxes _ _ _ hb).weighs⟩
        | false => cases hb.symm.trans hbefore.1
      next => exact ⟨b, hb, hbehind⟩
    · refine ⟨box', if_pos ⟨rfl, rfl⟩, ht.behind fun hnew => ?_⟩
      subst hnew
      exact hbefore.2.proposer
  · unfold put at hb
    split at hb
    next heq =>
      cases hb
      rw [heq.1, heq.2]
      exact h.explained_cast hsum hbefore ht hacc
    next => exact (h.boxes id' hash' b hb).mono fun a' voted' h' => (hacc a' voted').mpr (.inl h')

end Votes

/-! ## Along a run -/

section Runs

variable {dep : Deps} {cfg : Config} {policy : SigningPolicy} {s s' : State} {n : Nat} {t t' : Thread} {a : Arg}
  {voted : Voted}

theorem taken_set (hn : s.threads[n]? = some t) (hans : t.trace.answer = none) (a : Arg) (voted : Voted) :
    Taken (s.set n t').traces a voted ↔ Taken s.traces a voted ∨
      t'.trace.op = some (.vote a) ∧ t'.trace.answer = some (.voted (.ok voted)) := by
  have hlt : n < s.traces.length := (List.getElem?_eq_some_iff.mp (traces_of_thread hn)).1
  rw [traces_set]
  constructor
  · rintro ⟨τ, hτ, hsays⟩
    rcases List.mem_or_eq_of_mem_set hτ with hτ | rfl
    · exact .inl ⟨τ, hτ, hsays⟩
    · exact .inr hsays
  · rintro (⟨τ, hτ, hop, hsays⟩ | hsays)
    · obtain ⟨m, hm⟩ := List.getElem?_of_mem hτ
      have hne : n ≠ m := by
        rintro rfl
        rw [traces_of_thread hn, Option.some.injEq] at hm
        rw [← hm, hans] at hsays
        cases hsays
      exact ⟨τ, List.mem_of_getElem? (by rw [List.getElem?_set_ne hne, hm]), hop, hsays⟩
    · exact ⟨t'.trace, List.mem_set hlt _, hsays⟩

theorem taken_spawn (hans : t.trace.answer = none) (a : Arg) (voted : Voted) :
    Taken ({ s with threads := s.threads ++ [t] } : State).traces a voted ↔ Taken s.traces a voted := by
  rw [traces_spawn]
  constructor
  · rintro ⟨τ, hτ, hop, hsays⟩
    rcases List.mem_append.mp hτ with hτ | hτ
    · exact ⟨τ, hτ, hop, hsays⟩
    · rw [List.mem_singleton.mp hτ, hans] at hsays
      cases hsays
  · rintro ⟨τ, hτ, hsays⟩
    exact ⟨τ, List.mem_append_left _ hτ, hsays⟩

theorem taken_set_none (hn : s.threads[n]? = some t) (hans : t.trace.answer = none)
    (hnone : ∀ voted, t'.trace.answer ≠ some (.voted (.ok voted))) (a : Arg) (voted : Voted) :
    Taken (s.set n t').traces a voted ↔ Taken s.traces a voted := by
  rw [taken_set hn hans]
  exact or_iff_left fun h => hnone voted h.2

theorem taken_quiet (hn : s.threads[n]? = some t) (hq : Quiet dep cfg policy s t t') (a : Arg) (voted : Voted) :
    Taken (s.set n t').traces a voted ↔ Taken s.traces a voted := by
  obtain ⟨hlt, heq⟩ := List.getElem?_eq_some_iff.mp (traces_of_thread hn)
  rw [traces_set, hq.trace, ← heq, List.set_getElem_self]

theorem giveUp_answer {against : List Nat} {e : VoteErr} {ref? : Option Nat} (voted : Voted) :
    (Thread.addVote a against (.giveUp e ref?)).trace.answer ≠ some (.voted (.ok voted)) := by
  rw [giveUp_trace]
  rintro ⟨⟩

theorem unlockBox_says {against : List Nat} {ref b : Nat} {owner : Bool} (a' : Arg) (voted' : Voted) :
    (Thread.addVote a against (.unlockBox ref b owner (.ok voted))).trace.op = some (.vote a') ∧
      (Thread.addVote a against (.unlockBox ref b owner (.ok voted))).trace.answer = some (.voted (.ok voted')) ↔
      a' = a ∧ voted' = voted := by
  constructor
  · rintro ⟨hop, hans⟩
    cases hop
    cases hans
    exact ⟨rfl, rfl⟩
  · rintro ⟨rfl, rfl⟩
    exact ⟨rfl, rfl⟩

theorem look_of_isBox {h : Heap} (hok : h.OK) {b : Nat} {id hash : Hash} {d : BoxCell} (hbox : h.IsBox b id hash)
    (hd : h.voteBox[b]? = some d) : h.box? id hash = some d.box := by
  obtain ⟨d', hd', rfl, rfl⟩ := hbox
  rw [hd, Option.some.injEq] at hd'
  subst hd'
  exact hok.box?_iff.mpr ⟨b, hd⟩

theorem traced_step (hsum : policy.weightSum ≤ 65535) (hg : Guarded dep cfg policy s)
    (ht : Traced policy (Taken s.traces) s.heap.box?) (hs : Step dep cfg policy s s') :
    Traced policy (Taken s'.traces) s'.heap.box? := by
  cases hs with
  | addVote a => exact ht.congr (taken_spawn rfl) fun _ _ => rfl
  | statuses id => exact ht.congr (taken_spawn rfl) fun _ _ => rfl
  | quiet hn hq => exact ht.congr (taken_quiet hn hq) fun _ _ => rfl
  | early hn => exact ht.congr (taken_set_none hn rfl giveUp_answer) fun _ _ => rfl
  | full hn => exact ht.congr (taken_set_none hn rfl giveUp_answer) fun _ _ => rfl
  | reserve hn => exact ht.congr (taken_set_none hn rfl fun _ h => by cases h) fun _ _ => rfl
  | buildFailed hn => exact ht.congr (taken_set_none hn rfl giveUp_answer) fun _ _ => rfl
  | firstFailed hn => exact ht.congr (taken_set_none hn rfl giveUp_answer) fun _ _ => rfl
  | @publish n a against ref? box box' fin voted hn heff =>
    obtain ⟨hslot, hno, hb⟩ := hg.knows _ _ hn
    have hbefore : Before dep policy s.heap.box? a false box := ⟨hno, buildVoteBox_ok hb⟩
    refine (ht.cast hsum hbefore (voteEffect_tells heff) fun a' voted' => ?_).congr (fun _ _ => Iff.rfl)
      (hg.heap.box?_publish hslot hno)
    rw [← unlockBox_says]
    exact (taken_spawn (s := ⟨_, _, s.threads.set n _⟩) rfl a' voted').trans (taken_set hn rfl a' voted')
  | @vote n a against ref b c d box fin res hn hc hd heff =>
    obtain ⟨-, hbox⟩ := hg.knows _ _ hn
    have hlook := look_of_isBox hg.heap hbox hd
    cases res with
    | ok voted =>
      have hbefore : Before dep policy s.heap.box? a true d.box := hlook
      refine (ht.cast hsum hbefore (voteEffect_tells heff) fun a' voted' => ?_).congr (fun _ _ => Iff.rfl)
        (hg.heap.box?_write hbox)
      rw [← unlockBox_says]
      exact taken_set hn rfl a' voted'
    | error e =>
      have hsame : Traced policy (Taken s.traces) (put s.heap.box? a.id a.hash box) := by
        rcases voteEffect_cases heff with ⟨-, -, -, rfl | ⟨_, rfl⟩⟩ | ⟨_, hok, -⟩
        · exact ht.rewrite hlook ⟨rfl, rfl, rfl⟩ fun hdel => ⟨hdel, rfl⟩
        · exact ht.rewrite hlook ⟨rfl, rfl, rfl⟩ fun hdel => ⟨hdel, rfl⟩
        · cases hok
      exact hsame.congr (taken_set_none hn rfl fun _ h => by cases h) (hg.heap.box?_write hbox)
  | @expire n id hash ref b c d hn hc hd =>
    obtain ⟨-, hbox⟩ := hg.knows _ _ hn
    have hended : Traced policy (Taken s.traces) (put s.heap.box? id hash d.box.delete) :=
      ht.rewrite (look_of_isBox hg.heap hbox hd) ⟨rfl, rfl, rfl⟩ fun hdel => by cases hdel
    exact hended.congr (taken_set_none hn rfl fun _ h => by cases h) (hg.heap.box?_write hbox)

/-- **Votes and boxes agree in every interleaving.** -/
theorem traced (hsum : policy.weightSum ≤ 65535) (hr : Lts.Reach (system dep cfg policy) Lts.Free s) :
    Traced policy (Taken s.traces) s.heap.box? := by
  refine hr.invariant (fun s => Traced policy (Taken s.traces) s.heap.box?) ?_ fun s e s' hr ht _ hs =>
    traced_step hsum (guarded hr) ht (step_inv hs)
  rintro s rfl
  refine ⟨fun a voted h => ?_, fun id hash box h => ?_⟩
  · obtain ⟨τ, hτ, -⟩ := h
    cases hτ
  · cases h

/-! ## Calls of a run -/

theorem returned_step {against : List Nat} {res : Except VoteErr Voted} (hs : Step dep cfg policy s s')
    (hn : s.threads[n]? = some (.addVote a against (.returned res))) :
    s'.threads[n]? = some (.addVote a against (.returned res)) := by
  have hlt : n < s.threads.length := (List.getElem?_eq_some_iff.mp hn).1
  have hset : ∀ {m : Nat} {t t' : Thread}, s.threads[m]? = some t → t ≠ .addVote a against (.returned res) →
      (s.threads.set m t')[n]? = some (.addVote a against (.returned res)) := by
    intro m t t' hm hne
    rw [List.getElem?_set_ne, hn]
    rintro rfl
    exact hne (Option.some.inj (hm.symm.trans hn))
  cases hs with
  | addVote | statuses => exact (List.getElem?_append_left hlt).trans hn
  | quiet hm hq =>
    refine hset hm ?_
    rintro rfl
    cases hq with
    | addVote hq => cases hq
  | early hm | full hm | reserve hm | buildFailed hm | firstFailed hm | vote hm | expire hm =>
    exact hset hm fun h => by cases h
  | publish hm =>
    exact (List.getElem?_append_left (by rwa [List.length_set])).trans (hset hm fun h => by cases h)

def Thread.vote? : Thread → Option Arg
  | .addVote a _ _ => some a
  | _ => none

/-- The goroutines of `s'` are those of `s`, or for the vote `vote?`, or for
none. -/
def Threads (s : State) (vote? : Option Arg) (s' : State) : Prop :=
  ∀ t ∈ s'.threads, t ∈ s.threads ∨ t.vote? = vote? ∨ t.vote? = none

theorem threads_set {h : Heap} {l : Limiter} : Threads s t.vote? ⟨h, l, s.threads.set n t⟩ := by
  intro u hu
  rcases List.mem_or_eq_of_mem_set hu with hu | rfl
  · exact .inl hu
  · exact .inr (.inl rfl)

theorem threads_spawn {h : Heap} {l : Limiter} {vote? : Option Arg} {ts : List Thread}
    (hts : Threads s vote? ⟨h, l, ts⟩) (ht : t.vote? = none) : Threads s vote? ⟨h, l, ts ++ [t]⟩ := by
  intro u hu
  rcases List.mem_append.mp hu with hu | hu
  · exact hts u hu
  · rw [List.mem_singleton.mp hu]
    exact .inr (.inr ht)

theorem stepVote_threads {against : List Nat} {pc : VotePc} (h : stepVote dep cfg policy s n a against pc = some s') :
    Threads s (some a) s' := by
  unfold stepVote at h
  dsimp only at h
  repeat' split at h
  all_goals cases h
  all_goals first
    | exact threads_set (t := .addVote a _ _)
    | exact threads_spawn (threads_set (t := .addVote a _ _)) rfl

theorem stepEnd_threads {id hash : Hash} {ref b : Nat} {pc : EndPc} (h : stepEnd dep s n id hash ref b pc = some s') :
    Threads s none s' := by
  unfold stepEnd at h
  dsimp only at h
  repeat' split at h
  all_goals cases h
  all_goals exact threads_set (t := .scheduleEnd id hash ref b _)

theorem stepStatuses_threads {id : Hash} {pc : StatusPc} (h : stepStatuses s n id pc = some s') :
    Threads s none s' := by
  unfold stepStatuses at h
  dsimp only at h
  repeat' split at h
  all_goals cases h
  all_goals exact threads_set (t := .statuses id _)

/-- Every call of `AddVote` was there before the step, or the step is its
start. -/
theorem call_step {e : Event} (h : step dep cfg policy s e = some s') (ht : t ∈ s'.threads) (ha : t.vote? = some a) :
    e = .addVote a ∨ ∃ u ∈ s.threads, u.vote? = some a := by
  have hknown : ∀ {vote? : Option Arg}, Threads s vote? s' → (∀ a, vote? = some a → ∃ u ∈ s.threads, u.vote? = some a) →
      ∃ u ∈ s.threads, u.vote? = some a := by
    intro vote? hts hvote
    rcases hts t ht with ht | heq | hnone
    · exact ⟨t, ht, ha⟩
    · exact hvote a (heq.symm.trans ha)
    · cases hnone.symm.trans ha
  cases e with
  | addVote a' =>
    cases h
    rcases List.mem_append.mp ht with ht | ht
    · exact .inr ⟨t, ht, ha⟩
    · rw [List.mem_singleton.mp ht] at ha
      cases ha
      exact .inl rfl
  | statuses id =>
    cases h
    have hts : Threads s none { s with threads := s.threads ++ [.statuses id .wantVoting] } :=
      threads_spawn (fun _ => .inl) rfl
    exact .inr (hknown hts fun _ h => by cases h)
  | run m =>
    simp only [step] at h
    split at h
    next a' against pc hm =>
      refine .inr (hknown (stepVote_threads h) ?_)
      rintro a ⟨⟩
      exact ⟨_, List.mem_of_getElem? hm, rfl⟩
    next => exact .inr (hknown (stepEnd_threads h) fun _ h => by cases h)
    next => exact .inr (hknown (stepStatuses_threads h) fun _ h => by cases h)
    next => cases h
  | pick m k =>
    simp only [step] at h
    split at h
    next =>
      obtain ⟨b, -, rfl⟩ := Option.map_eq_some_iff.mp h
      exact .inr (hknown (threads_set (t := .statuses _ _)) fun _ h => by cases h)
    next => cases h
  | cancel m =>
    simp only [step] at h
    split at h
    next =>
      cases h
      exact .inr (hknown (threads_set (t := .scheduleEnd _ _ _ _ _)) fun _ h => by cases h)
    next => cases h

end Runs

end TeeProxy.Voting.Locks
