/-
The life of one box: the votes recorded in it, and what it has given to be
sent. A box has nothing to send until it is finalized; a (Wallet,
KeyDataProviderRestore) box nothing until its end and then a threshold and an
end action over all its votes; any other box one threshold action over the
votes up to the finalizing one and, if it was the first of its ID to finalize
and has ended, one end action (`produced`). `BoxOK` says that the actions on
`Out` and those still being sent are together exactly these; each operation
on a box keeps it.
-/
import TeeProxy.Voting.Actions

namespace TeeProxy.Voting

/-! ## The part of a state that concerns one box -/

/-- The votes recorded in a box, in order. -/
def votesOf (l : List Accepted) (k : Key) : List Accepted := l.filter (·.key = k)

/-- The actions of a box that are on `Out`, in order. -/
def outOf (l : List Emission) (k : Key) : List Action := (l.filter (·.key = k)).map (·.action)

/-- The actions of a box that are still being sent, one list per goroutine. -/
def waitingOf (l : List Sender) (k : Key) : List (List Action) :=
  (l.filter fun x => x.key = k ∧ x.actions ≠ []).map (·.actions)

/-- The `FinalizedHash` of an instruction ID of a round. -/
def Storage.finalizedHash {cyc : CyclicPkg} (s : Storage cyc) (i : Nat) (id : Hash) : Hash :=
  (s.rounds[i]?.map (·.finalizedHash id)).getD 0

section Projections

variable {k : Key}

theorem votesOf_append_self {l : List Accepted} {v : Accepted} (h : v.key = k) :
    votesOf (l ++ [v]) k = votesOf l k ++ [v] := by
  simp [votesOf, h]

theorem votesOf_append_ne {l : List Accepted} {v : Accepted} (h : v.key ≠ k) : votesOf (l ++ [v]) k = votesOf l k := by
  simp [votesOf, h]

theorem outOf_append (l : List Emission) (e : Emission) :
    outOf (l ++ [e]) k = outOf l k ++ if e.key = k then [e.action] else [] := by
  rw [outOf, List.filter_append, List.map_append, List.filter_singleton]
  by_cases h : e.key = k <;> simp [outOf, h]

theorem waitingOf_append (l l' : List Sender) : waitingOf (l ++ l') k = waitingOf l k ++ waitingOf l' k := by
  simp [waitingOf]

theorem waitingOf_append_self (l : List Sender) (as : List Action) :
    waitingOf (l ++ [⟨k, as⟩]) k = waitingOf l k ++ if as ≠ [] then [as] else [] := by
  by_cases h : as = [] <;> simp [waitingOf, h]

theorem waitingOf_append_ne {l : List Sender} {k' : Key} (h : k' ≠ k) (as : List Action) :
    waitingOf (l ++ [⟨k', as⟩]) k = waitingOf l k := by
  simp [waitingOf, h]

theorem waitingOf_cons (x : Sender) (l : List Sender) :
    waitingOf (x :: l) k = (if x.key = k ∧ x.actions ≠ [] then [x.actions] else []) ++ waitingOf l k := by
  by_cases h : x.key = k ∧ x.actions ≠ [] <;> simp [waitingOf, h]

theorem ne_nil_of_mem_waitingOf {l : List Sender} {as : List Action} (h : as ∈ waitingOf l k) : as ≠ [] := by
  simp only [waitingOf, List.mem_map, List.mem_filter, decide_eq_true_iff] at h
  obtain ⟨x, ⟨-, -, hne⟩, rfl⟩ := h
  exact hne

theorem eq_nil_of_flatten {waiting : List (List Action)} (hwait : ∀ as ∈ waiting, as ≠ [])
    (h : waiting.flatten = []) : waiting = [] := by
  rw [List.flatten_eq_nil_iff] at h
  exact List.eq_nil_iff_forall_not_mem.mpr fun as has => hwait as has (h as has)

theorem waitingOf_set {l : List Sender} {n : Nat} {a : Action} {rest : List Action} {key : Key}
    (h : l[n]? = some ⟨key, a :: rest⟩) :
    if key = k then ∃ w₁ w₂, waitingOf l k = w₁ ++ [a :: rest] ++ w₂ ∧
        waitingOf (l.set n ⟨key, rest⟩) k = w₁ ++ (if rest = [] then [] else [rest]) ++ w₂
      else waitingOf (l.set n ⟨key, rest⟩) k = waitingOf l k := by
  obtain ⟨hn, hget⟩ := List.getElem?_eq_some_iff.mp h
  obtain ⟨l₁, l₂, hl, -, hset⟩ : ∃ l₁ l₂, l = l₁ ++ l[n] :: l₂ ∧ l₁.length = n ∧
    l.set n ⟨key, rest⟩ = l₁ ++ ⟨key, rest⟩ :: l₂ := List.exists_of_set hn
  rw [hget] at hl
  rw [hset, hl]
  simp only [waitingOf_append, waitingOf_cons]
  split
  next hk =>
    refine ⟨waitingOf l₁ k, waitingOf l₂ k, by simp [hk], ?_⟩
    by_cases hr : rest = [] <;> simp [hk, hr]
  next hk => simp [hk]

end Projections

/-! ## What a box has to emit -/

section Produced

variable (dep : Deps)

/-- Everything a box has given to be sent, in the order it was given. -/
def produced (data : DataFixed) (k : Key) (finalizedHash : Hash) (box : VoteBox) (history : List Accepted) :
    List Action :=
  if box.finalized = false then []
  else if isRestore dep data.opType data.opCommand then
    if box.deleted then [actionOf dep data .threshold history, actionOf dep data .end history] else []
  else actionOf dep data .threshold (uptoFinal history) ::
    if box.deleted ∧ k.hash = finalizedHash then [actionOf dep data .end history] else []

/-- The instructions of a run. -/
structure Instructions (D : Set DataFixed) : Prop where
  collisionFree : ∀ d ∈ D, ∀ d' ∈ D, ∀ h, dep.instruction.hashFixed d = .ok h →
    dep.instruction.hashFixed d' = .ok h → d = d'
  nonzero : ∀ d ∈ D, dep.instruction.hashFixed d ≠ .ok 0
  marshal : ∀ d ∈ D, ∃ m, dep.instruction.marshal d = .ok m

/-- The life of a stored box: its history, and what it emitted. -/
structure BoxOK (data : DataFixed) (k : Key) (finalizedHash : Hash) (history : List Accepted) (out : List Action)
    (waiting : List (List Action)) (box : VoteBox) : Prop where
  instruction : box.deleted = false → box.proposal.instruction = some data
  iHash : box.iHash = k.hash
  ballots : box.deleted = false → Ballots box history
  latch : box.finalized = history.any (·.reached)
  settled : box.finalized = true → isRestore dep data.opType data.opCommand = false → finalizedHash ≠ 0
  sent : (out ++ waiting.flatten).Perm (produced dep data k finalizedHash box history)
  ordered : isRestore dep data.opType data.opCommand = true →
    out ++ waiting.flatten = produced dep data k finalizedHash box history ∧ waiting.length ≤ 1

/-- A box that is not stored has no history; one that is has an instruction. -/
def KeyOK (D : Set DataFixed) (k : Key) (finalizedHash : Hash) (history : List Accepted) (out : List Action)
    (waiting : List (List Action)) : Option VoteBox → Prop
  | none => history = [] ∧ out = [] ∧ waiting = []
  | some box => ∃ data ∈ D, dep.instruction.hashFixed data = .ok k.hash ∧
      BoxOK dep data k finalizedHash history out waiting box

end Produced

section Life

variable {dep : Deps} {D : Set DataFixed} {k : Key} {fh fh' : Hash} {data : DataFixed} {history : List Accepted}
  {out : List Action} {waiting : List (List Action)} {box : VoteBox}

/-- Setting a finalized hash that was not set changes nothing for a box that
has something to compare with it. -/
theorem BoxOK.finalizedHash (h : BoxOK dep data k fh history out waiting box) (hfh : fh ≠ 0 → fh' = fh) :
    BoxOK dep data k fh' history out waiting box := by
  have hp : produced dep data k fh' box history = produced dep data k fh box history := by
    unfold produced
    cases hf : box.finalized with
    | false => simp
    | true =>
      cases hr : isRestore dep data.opType data.opCommand with
      | true => simp
      | false => rw [hfh (h.settled hf hr)]
  refine ⟨h.instruction, h.iHash, h.ballots, h.latch, fun hf hr => ?_, hp ▸ h.sent, hp ▸ h.ordered⟩
  rw [hfh (h.settled hf hr)]
  exact h.settled hf hr

theorem KeyOK.finalizedHash {b : Option VoteBox} (h : KeyOK dep D k fh history out waiting b)
    (hfh : fh ≠ 0 → fh' = fh) : KeyOK dep D k fh' history out waiting b := by
  cases b with
  | none => exact h
  | some box =>
    obtain ⟨data, hD, hhash, hbox⟩ := h
    exact ⟨data, hD, hhash, hbox.finalizedHash hfh⟩

theorem BoxOK.voteHash (h : BoxOK dep data k fh history out waiting box) (voteHash : Hash) :
    BoxOK dep data k fh history out waiting { box with voteHash } :=
  ⟨h.instruction, h.iHash, fun hd => ⟨(h.ballots hd).size, (h.ballots hd).mem⟩, h.latch, h.settled, h.sent, h.ordered⟩

theorem BoxOK.silent (h : BoxOK dep data k fh history out waiting box) (hp : produced dep data k fh box history = []) :
    out = [] ∧ waiting.flatten = [] := by
  have := h.sent
  rw [hp, List.perm_nil, List.append_eq_nil_iff] at this
  exact this

theorem BoxOK.fresh {policy : SigningPolicy} {call : Call} (hf : Fresh dep policy call box)
    (hhash : box.iHash = k.hash) :
    BoxOK dep call.data.toDataFixed k fh [] [] [] box := by
  have hp : produced dep call.data.toDataFixed k fh box [] = [] := by rw [produced, if_pos hf.finalized]
  refine ⟨fun _ => hf.instruction, hhash, fun _ => .fresh hf.votes, hf.finalized, fun h => ?_, ?_, fun _ => ?_⟩
  · rw [hf.finalized] at h; cases h
  · rw [hp]; exact .refl _
  · rw [hp]; exact ⟨rfl, Nat.zero_le _⟩

/-- A vote that does not finalize the box gives nothing to send. -/
theorem BoxOK.recorded {call : Call} {clock : Clock} {box' : VoteBox} {a : Accepted}
    (h : BoxOK dep data k fh history out waiting box) (hd : box.deleted = false)
    (hrec : Recorded call clock box false box') (hcall : a.call = call) (htime : a.time = clock.vote)
    (ha : a.reached = false) : BoxOK dep data k fh (history ++ [a]) out waiting box' := by
  have hf : box'.finalized = box.finalized := by rw [hrec.finalized, Bool.or_false]
  have hp : produced dep data k fh box' (history ++ [a]) = produced dep data k fh box history := by
    unfold produced
    rw [hf, hrec.deleted, hd]
    cases hfin : box.finalized with
    | false => rfl
    | true => rw [uptoFinal_append_of_finalized (h.latch ▸ hfin)]; rfl
  refine ⟨fun _ => hrec.proposal ▸ h.instruction hd, hrec.iHash.trans h.iHash,
    fun _ => (h.ballots hd).recorded hrec hcall htime, ?_, hf ▸ h.settled, hp ▸ h.sent, hp ▸ h.ordered⟩
  rw [hf, h.latch, List.any_append]
  simp [ha]

/-- The vote that finalizes the box gives a threshold action to send, over
all votes so far, unless the box is a restore one. -/
theorem BoxOK.finalized {call : Call} {clock : Clock} {box' : VoteBox} {a : Accepted} {m : Bytes}
    (h : BoxOK dep data k fh history out waiting box) (hwait : ∀ as ∈ waiting, as ≠ []) (hd : box.deleted = false)
    (hrec : Recorded call clock box true box') (hcall : a.call = call) (htime : a.time = clock.vote)
    (ha : a.reached = true) (hm : dep.instruction.marshal data = .ok m)
    (hfh : isRestore dep data.opType data.opCommand = false → fh' ≠ 0) {toSend : Option Action}
    (hsend : toSend = if isRestore dep data.opType data.opCommand = false then
      (box'.action dep .threshold).toOption else none) :
    BoxOK dep data k fh' (history ++ [a]) out (waiting ++ if toSend.toList ≠ [] then [toSend.toList] else [])
      box' := by
  have hopen : box.finalized = false := hrec.unfinalized rfl
  have hfin : box'.finalized = true := by rw [hrec.finalized, Bool.or_true]
  have hd' : box'.deleted = false := hrec.deleted.trans hd
  have hi : box'.proposal.instruction = some data := hrec.proposal ▸ h.instruction hd
  have hb := (h.ballots hd).recorded hrec hcall htime
  obtain ⟨rfl, hflat⟩ := h.silent (by rw [produced, if_pos hopen])
  obtain rfl := eq_nil_of_flatten hwait hflat
  have hlatch : history.any (·.reached) = false := h.latch ▸ hopen
  rw [VoteBox.action_eq hd' hfin hi hm hb] at hsend
  refine ⟨fun _ => hi, hrec.iHash.trans h.iHash, fun _ => hb, ?_, fun _ hr => hfh hr, ?_, fun hr => ?_⟩
  · rw [hfin, List.any_append]; simp [ha]
  · unfold produced
    rw [hsend, hfin, hd', uptoFinal_append_final hlatch ha]
    cases isRestore dep data.opType data.opCommand <;> simp [Except.toOption]
  · unfold produced
    rw [hsend, hfin, hd', hr]
    simp

theorem BoxOK.endActions {m : Bytes} (h : BoxOK dep data k fh history out waiting box) (hd : box.deleted = false)
    (hm : dep.instruction.marshal data = .ok m) :
    box.endActions dep fh = if box.finalized = false then []
      else if isRestore dep data.opType data.opCommand then
        [actionOf dep data .threshold history, actionOf dep data .end history]
      else if k.hash = fh then [actionOf dep data .end history] else [] := by
  unfold VoteBox.endActions
  rw [h.instruction hd, h.iHash]
  cases hf : box.finalized with
  | false => simp
  | true =>
    have hact := VoteBox.action_eq hd hf (h.instruction hd) hm (h.ballots hd)
    simp only [hact, Bool.not_true, Bool.false_eq_true, if_false, Bool.true_eq_false, Except.toOption,
      Option.toList_some]
    cases isRestore dep data.opType data.opCommand with
    | true => rfl
    | false => by_cases hk : k.hash = fh <;> simp [hk]

/-- **The end of a box.** -/
theorem BoxOK.ended {m : Bytes} (h : BoxOK dep data k fh history out waiting box)
    (hwait : ∀ as ∈ waiting, as ≠ []) (hd : box.deleted = false) (hm : dep.instruction.marshal data = .ok m) :
    BoxOK dep data k fh history out
      (waiting ++ if box.endActions dep fh ≠ [] then [box.endActions dep fh] else []) box.delete := by
  have hflat : (if box.endActions dep fh ≠ [] then [box.endActions dep fh] else []).flatten =
      box.endActions dep fh := by
    split
    · simp
    next hne => rw [not_not.mp hne]; rfl
  have hgrown : produced dep data k fh box.delete history =
      produced dep data k fh box history ++ box.endActions dep fh := by
    rw [h.endActions hd hm]
    unfold produced
    have hdel : box.delete.deleted = true ∧ box.delete.finalized = box.finalized := ⟨rfl, rfl⟩
    rw [hdel.1, hdel.2, hd]
    cases box.finalized with
    | false => rfl
    | true => cases isRestore dep data.opType data.opCommand <;> by_cases hk : k.hash = fh <;> simp [hk]
  refine ⟨fun hd' => (nomatch hd'), h.iHash, fun hd' => (nomatch hd'), h.latch, h.settled, ?_, fun hr => ?_⟩
  · rw [hgrown, List.flatten_append, hflat, ← List.append_assoc]
    exact h.sent.append_right _
  · -- a restore box has sent nothing before its end
    have hnone : produced dep data k fh box history = [] := by
      unfold produced; rw [hr, hd]; simp
    obtain ⟨hout, hw⟩ := h.silent hnone
    rw [hgrown, hnone, List.flatten_append, hflat, hout, eq_nil_of_flatten hwait hw]
    refine ⟨rfl, ?_⟩
    split <;> simp

/-- **A send.** -/
theorem BoxOK.handed {a : Action} {rest : List Action} {w₁ w₂ : List (List Action)}
    (h : BoxOK dep data k fh history out (w₁ ++ [a :: rest] ++ w₂) box) :
    BoxOK dep data k fh history (out ++ [a]) (w₁ ++ (if rest = [] then [] else [rest]) ++ w₂) box := by
  have hrest : (if rest = [] then [] else [rest]).flatten = rest := by
    split
    next hr => rw [hr]; rfl
    next => simp
  refine ⟨h.instruction, h.iHash, h.ballots, h.latch, h.settled, ?_, fun hr => ?_⟩
  · refine .trans ?_ h.sent
    simp only [List.flatten_append, hrest, List.flatten_cons, List.append_assoc, List.cons_append, List.nil_append]
    exact (List.perm_middle.symm).append_left out
  · -- the goroutine is the only one that sends for the box
    obtain ⟨heq, hlen⟩ := h.ordered hr
    simp only [List.length_append, List.length_singleton] at hlen
    obtain rfl : w₁ = [] := List.eq_nil_of_length_eq_zero (by omega)
    obtain rfl : w₂ = [] := List.eq_nil_of_length_eq_zero (by omega)
    refine ⟨?_, ?_⟩
    · rw [← heq]
      simp only [List.nil_append, List.append_nil, hrest, List.flatten_cons, List.flatten_nil, List.append_assoc,
        List.singleton_append]
    · split <;> simp

end Life

end TeeProxy.Voting
