/-
The actions of a box carry the votes recorded in it, in the order they were
recorded: `signersData` writes each vote at its sequence number, and the
sequence numbers are the positions in the history. The order in which Go
iterates the map of votes does not matter.
-/
import TeeProxy.Voting.Storage

namespace TeeProxy.Voting

/-! ## Slices written by index -/

/-- What `signersData` does to one slice. -/
def writeAt {α : Type} (f : Vote → α) (vs : List Vote) (l : List α) : List α :=
  vs.foldl (fun l v => l.set v.sequence (f v)) l

theorem length_writeAt {α : Type} (f : Vote → α) (vs : List Vote) (l : List α) :
    (writeAt f vs l).length = l.length := by
  induction vs generalizing l with
  | nil => rfl
  | cons v vs ih => rw [writeAt, List.foldl_cons]; exact (ih _).trans List.length_set

/-- A slot that all votes with its number agree on, and that was written or
held the value before, has that value. -/
theorem getElem?_writeAt {α : Type} {f : Vote → α} {j : Nat} {x : α} :
    ∀ {vs : List Vote} {l : List α}, j < l.length → (∀ v ∈ vs, v.sequence = j → f v = x) →
      (l[j]? = some x ∨ ∃ v ∈ vs, v.sequence = j) → (writeAt f vs l)[j]? = some x
  | [], l, _, _, h => by
    rcases h with h | ⟨v, hv, -⟩
    · exact h
    · cases hv
  | v :: vs, l, hj, hall, h => by
    rw [writeAt, List.foldl_cons]
    refine getElem?_writeAt (by rwa [List.length_set]) (fun w hw => hall w (List.mem_cons_of_mem _ hw)) ?_
    by_cases hv : v.sequence = j
    · refine .inl ?_
      rw [← hv, List.getElem?_set_self (by rwa [hv]), hall v List.mem_cons_self hv]
    · rcases h with h | ⟨w, hw, hwj⟩
      · exact .inl (by rw [List.getElem?_set_ne hv, h])
      · rcases List.mem_cons.mp hw with rfl | hw
        · exact absurd hwj hv
        · exact .inr ⟨w, hw, hwj⟩

/-! ## The votes of a box and its history -/

/-- The vote recorded at position `i` of a box's history. -/
def Accepted.voteAt (v : Accepted) (i : Nat) : Vote :=
  ⟨i, v.time, v.call.signature, v.call.data.additionalVariableMessage⟩

/-- The votes of the box are its history, numbered. -/
structure Ballots (box : VoteBox) (history : List Accepted) : Prop where
  size : box.votes.size = history.length
  mem : ∀ v, v ∈ box.votes.values ↔ ∃ (i : Nat) (a : Accepted), history[i]? = some a ∧ v = a.voteAt i

theorem Ballots.fresh {box : VoteBox} (h : box.votes = ∅) : Ballots box [] := by
  refine ⟨by rw [h]; rfl, fun v => ?_⟩
  rw [h]
  simp

theorem Ballots.recorded {call : Call} {clock : Clock} {box box' : VoteBox} {reached : Bool}
    {history : List Accepted} (h : Ballots box history) (hrec : Recorded call clock box reached box')
    {a : Accepted} (hcall : a.call = call) (htime : a.time = clock.vote) : Ballots box' (history ++ [a]) := by
  subst hcall
  have hnext : box.nextVote clock.vote a.call.signature a.call.data.additionalVariableMessage =
      a.voteAt history.length := by
    rw [VoteBox.nextVote, Accepted.voteAt, h.size, htime]
  refine ⟨?_, fun v => ?_⟩
  · rw [hrec.votes, GoMap.size_set_new hrec.new, h.size, List.length_append]; rfl
  · rw [hrec.votes, GoMap.values_set_new hrec.new, List.mem_cons, hnext, h.mem]
    constructor
    · rintro (rfl | ⟨i, b, hi, rfl⟩)
      · exact ⟨history.length, a, by simp, rfl⟩
      · exact ⟨i, b, Lts.getElem?_snoc.mpr (.inl hi), rfl⟩
    · rintro ⟨i, b, hi, rfl⟩
      rcases Lts.getElem?_snoc.mp hi with hi | ⟨rfl, rfl⟩
      · exact .inr ⟨i, b, hi, rfl⟩
      · exact .inl rfl

theorem Ballots.writeAt {α : Type} {box : VoteBox} {history : List Accepted} (h : Ballots box history)
    (f : Vote → α) (g : Accepted → α) (zero : α) (hfg : ∀ a i, f (a.voteAt i) = g a) :
    Voting.writeAt f box.votes.values (List.replicate box.votes.size zero) = history.map g := by
  refine List.ext_getElem? fun j => ?_
  rcases Nat.lt_or_ge j history.length with hj | hj
  · have hjs : j < (List.replicate box.votes.size zero).length := by rw [List.length_replicate, h.size]; exact hj
    have hget : history[j]? = some history[j] := List.getElem?_eq_getElem hj
    rw [List.getElem?_map, hget]
    refine getElem?_writeAt hjs (fun v hv hvj => ?_) (.inr ⟨_, (h.mem _).mpr ⟨j, _, hget, rfl⟩, rfl⟩)
    obtain ⟨i, a, hi, rfl⟩ := (h.mem v).mp hv
    obtain rfl : i = j := hvj
    rw [hfg, Option.some.inj (hi.symm.trans hget)]
  · rw [List.getElem?_eq_none (by rw [length_writeAt, List.length_replicate, h.size]; exact hj),
      List.getElem?_eq_none (by rw [List.length_map]; exact hj)]

/-! ## Actions -/

section Action

variable (dep : Deps)

/-- The action with a tag that a history of votes on an instruction gives. -/
def actionOf (data : DataFixed) (tag : SubmissionTag) (history : List Accepted) : Action where
  data := ⟨data.instructionID, .instruction, tag, (dep.instruction.marshal data).toOption.getD []⟩
  signatures := history.map (·.call.signature)
  additionalVariableMessages := history.map (·.call.data.additionalVariableMessage)
  timestamps := history.map (·.time.unixU64)
  additionalActionData := []

variable {dep}

/-- **An action carries the whole history.** -/
theorem VoteBox.action_eq {box : VoteBox} {data : DataFixed} {history : List Accepted} {m : Bytes}
    (hd : box.deleted = false) (hf : box.finalized = true) (hi : box.proposal.instruction = some data)
    (hm : dep.instruction.marshal data = .ok m) (hb : Ballots box history) (tag : SubmissionTag) :
    box.action dep tag = .ok (actionOf dep data tag history) := by
  have hs : box.signersData = (history.map (·.call.signature), history.map (·.call.data.additionalVariableMessage),
      history.map (·.time.unixU64)) := by
    unfold VoteBox.signersData
    exact Prod.ext (hb.writeAt _ _ _ fun _ _ => rfl)
      (Prod.ext (hb.writeAt _ _ _ fun _ _ => rfl) (hb.writeAt _ _ _ fun _ _ => rfl))
  unfold VoteBox.action
  simp only [hd, hf, hi, hm, hs, Bool.false_eq_true, if_false, Bool.not_true, actionOf]
  rfl

theorem VoteBox.action_open {box : VoteBox} {tag : SubmissionTag} {a : Action} (h : box.action dep tag = .ok a) :
    box.deleted = false ∧ box.finalized = true ∧
      ∃ data m, box.proposal.instruction = some data ∧ dep.instruction.marshal data = .ok m := by
  unfold VoteBox.action at h
  split at h
  · cases h
  next hd =>
  split at h
  · cases h
  next hf =>
  split at h
  · cases h
  next data hi =>
  split at h
  · cases h
  next m hm => exact ⟨by simpa using hd, by simpa using hf, data, m, hi, hm⟩

/-- Whatever action a box gives is the one of its history. -/
theorem VoteBox.action_ok {box : VoteBox} {history : List Accepted} {tag : SubmissionTag} {a : Action}
    (hb : Ballots box history) (h : box.action dep tag = .ok a) : ∃ data, a = actionOf dep data tag history := by
  obtain ⟨hd, hf, data, m, hi, hm⟩ := VoteBox.action_open h
  rw [VoteBox.action_eq hd hf hi hm hb] at h
  exact ⟨data, (Except.ok.inj h).symm⟩

theorem VoteBox.mem_endActions {box : VoteBox} {finalizedHash : Hash} {a : Action}
    (h : a ∈ box.endActions dep finalizedHash) : ∃ tag, box.action dep tag = .ok a := by
  have hmem : ∀ tag, a ∈ (box.action dep tag).toOption.toList → box.action dep tag = .ok a := fun tag ha =>
    Except.toOption_eq_some_iff.mp (Option.mem_toList.mp ha)
  unfold VoteBox.endActions at h
  split at h
  · cases h
  split at h
  · cases h
  split at h
  · rcases List.mem_append.mp h with h | h
    · exact ⟨_, hmem _ h⟩
    · exact ⟨_, hmem _ h⟩
  split at h
  · cases h
  · exact ⟨_, hmem _ h⟩

end Action

/-- The history up to the vote that finalized the box. -/
def uptoFinal : List Accepted → List Accepted
  | [] => []
  | v :: history => if v.reached then [v] else v :: uptoFinal history

theorem uptoFinal_append_of_finalized {history : List Accepted} (h : history.any (·.reached) = true)
    (l : List Accepted) : uptoFinal (history ++ l) = uptoFinal history := by
  induction history with
  | nil => cases h
  | cons v history ih =>
    rw [List.cons_append, uptoFinal, uptoFinal]
    split
    · rfl
    next hv =>
      rw [List.any_cons, Bool.or_eq_true] at h
      rw [ih (h.resolve_left hv)]

/-- The finalizing vote is the last of the history up to it. -/
theorem uptoFinal_append_final {history : List Accepted} (h : history.any (·.reached) = false) {v : Accepted}
    (hv : v.reached = true) : uptoFinal (history ++ [v]) = history ++ [v] := by
  induction history with
  | nil => simp [uptoFinal, hv]
  | cons w history ih =>
    rw [List.any_cons, Bool.or_eq_false_iff] at h
    rw [List.cons_append, uptoFinal, if_neg (by simp [h.1]), ih h.2]

end TeeProxy.Voting
