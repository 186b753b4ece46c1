/-
What `Service.Statuses` returns (`internal/service/instruction/instruction.go`)
while votes and expirations run.

The call holds the lock of its ID's `voteBoxes` for reading from the moment it
has the map to its return, and takes the lock of each box for its status. A
vote needs the former for writing, so no vote runs in between, on any box of
the ID; an expiration needs it only for reading. What the call returns is
therefore what the boxes of the ID were at one moment of the call, except that
boxes that expired since are shown as expired (`statuses_snapshot`).

The goroutines are those of `Locks`; here each `Statuses` also keeps the list it
appends to and what it returns.
-/
import TeeProxy.Voting.Effects
import TeeProxy.Voting.Status

namespace TeeProxy.Voting.Locks

/-- `voting.Statuses`. -/
structure Statuses where
  instructionID : Hash
  finalizedHash : Hash
  status : List Status
  deriving DecidableEq, Repr

/-- The error of a call that has found its round. -/
inductive StatusesErr
  | noInstruction
  deriving DecidableEq, Repr

/-- The list a call has appended to, and what it returned. -/
structure Report where
  status : List Status
  result : Option (Except StatusesErr Statuses)
  deriving DecidableEq

def Report.new : Report := ⟨[], none⟩

/-- What a step of the call does to its report: the status of a box is taken
under the lock of the box, the finalized hash when all boxes are read. -/
def Report.next (r : Report) (h : Heap) (id : Hash) : StatusPc → Report
  | .heldVoting => match h.voting.get? id with
    | none => { r with result := some (.error .noInstruction) }
    | some _ => r
  | .readingBox _ b _ => { r with status := r.status ++ (h.voteBox[b]?.map fun d => d.box.status).toList }
  | .reading ref [] => match h.voteBoxes[ref]? with
    | none => r
    | some c => { r with result := some (.ok ⟨id, c.finalizedHash, r.status⟩) }
  | .wantVoting | .wantBoxes _ | .reading _ (_ :: _) | .wantBox .. | .returned => r

/-- The goroutines of a round, and the reports of the `Statuses` among them by
number. -/
structure Observed where
  locks : State
  reports : Nat → Report

section System

variable (dep : Deps) (cfg : Config) (policy : SigningPolicy)

/-- The goroutine that runs, if the event is one's next step. -/
def Event.runs : Event → Option Nat
  | .run n => some n
  | _ => none

/-- The report of the goroutine at `n` after an event. -/
def observe (s : Observed) (e : Event) (n : Nat) : Report :=
  if e.runs = some n then match s.locks.threads[n]? with
    | some (.statuses id pc) => (s.reports n).next s.locks.heap id pc
    | _ => s.reports n
  else s.reports n

/-- A step, with what the status calls see of it. -/
def observedStep (s : Observed) (e : Event) : Option Observed :=
  (step dep cfg policy s.locks e).map fun locks => ⟨locks, observe s e⟩

/-- One round under observation. -/
def observed : Lts.System Observed Event where
  init s := s = ⟨start cfg policy, fun _ => .new⟩
  step := observedStep dep cfg policy

end System

/-! ## Which goroutine a step moves -/

section Threads

variable {dep : Deps} {cfg : Config} {policy : SigningPolicy} {s s' : State} {n m : Nat}

theorem threads_stepVote {a : Arg} {against : List Nat} {pc : VotePc}
    (h : stepVote dep cfg policy s n a against pc = some s') :
    ∃ against' pc' l, s'.threads = s.threads.set n (.addVote a against' pc') ++ l ∧
      ∀ t ∈ l, ∃ id hash ref b, t = .scheduleEnd id hash ref b .sleeping := by
  have hmoved : ∀ {against' pc' limiter heap}, s' = ⟨heap, limiter, s.threads.set n (.addVote a against' pc')⟩ →
      ∃ against' pc' l, s'.threads = s.threads.set n (.addVote a against' pc') ++ l ∧
        ∀ t ∈ l, ∃ id hash ref b, t = .scheduleEnd id hash ref b .sleeping := by
    rintro against' pc' limiter heap rfl
    exact ⟨against', pc', [], (List.append_nil _).symm, fun t ht => by cases ht⟩
  cases pc with
  | wantVoting announced | wantBoxes ref announced | wantBox ref b announced =>
    cases announced <;> obtain ⟨-, rfl⟩ := free_of_guard h <;> exact hmoved rfl
  | heldVoting | reserved ref? | heldBox ref b =>
    simp only [stepVote] at h
    split at h <;> cases h <;> exact hmoved rfl
  | heldBoxes ref? =>
    simp only [stepVote] at h
    split at h
    · cases h; exact hmoved rfl
    split at h
    · cases h; exact hmoved rfl
    split at h <;> cases h <;> exact hmoved rfl
  | opened ref? box =>
    simp only [stepVote] at h
    split at h <;> cases h
    · exact hmoved rfl
    · refine ⟨_, _, _, rfl, fun t ht => ?_⟩
      cases List.mem_singleton.mp ht
      exact ⟨_, _, _, _, rfl⟩
  | unlockBox | unlockBoxes | unlockVoting => cases h; exact hmoved rfl
  | returned => cases h

theorem threads_stepEnd {id hash : Hash} {ref b : Nat} {pc : EndPc} (h : stepEnd dep s n id hash ref b pc = some s') :
    ∃ pc', s'.threads = s.threads.set n (.scheduleEnd id hash ref b pc') := by
  cases pc with
  | wantBoxes => obtain ⟨-, rfl⟩ := free_of_guard h; exact ⟨_, rfl⟩
  | wantBox announced => cases announced <;> obtain ⟨-, rfl⟩ := free_of_guard h <;> exact ⟨_, rfl⟩
  | heldBox =>
    simp only [stepEnd] at h
    split at h <;> cases h
    exact ⟨_, rfl⟩
  | sleeping | unlockBox | unlockBoxes => cases h; exact ⟨_, rfl⟩
  | cancelled | returned => cases h

theorem stepStatuses_quiet {id : Hash} {pc : StatusPc} (h : stepStatuses s n id pc = some s') :
    ∃ pc', s' = s.set n (.statuses id pc') ∧ StatusQuiet s id pc pc' := by
  cases pc with
  | wantVoting =>
    obtain ⟨hfree, rfl⟩ := free_of_guard h
    exact ⟨_, rfl, .enterVoting hfree⟩
  | heldVoting =>
    simp only [stepStatuses] at h
    split at h <;> cases h
    next hget => exact ⟨_, rfl, .known hget⟩
    next => exact ⟨_, rfl, .missing⟩
  | wantBoxes ref =>
    simp only [stepStatuses] at h
    split at h
    next hc =>
      obtain ⟨hfree, rfl⟩ := free_of_guard h
      exact ⟨_, rfl, .enterBoxes hc hfree⟩
    next => cases h
  | reading ref todo =>
    cases todo <;> cases h
    exact ⟨_, rfl, .unlockBoxes⟩
  | wantBox ref b todo =>
    obtain ⟨hfree, rfl⟩ := free_of_guard h
    exact ⟨_, rfl, .enterBox hfree⟩
  | readingBox => cases h; exact ⟨_, rfl, .unlockBox⟩
  | returned => cases h

/-- Where the `Statuses` at `m` comes from: the step was not its own, it went
on to one of its boxes, it ran, or it has just been called. -/
inductive Course (s s' : State) (e : Event) (m : Nat) (id : Hash) (pc' : StatusPc) : Prop
  | untouched : s.threads[m]? = some (.statuses id pc') → e ≠ .run m → Course s s' e m id pc'
  | picked {k ref b} {todo : List Nat} : s.threads[m]? = some (.statuses id (.reading ref todo)) → e ≠ .run m →
      todo[k]? = some b → pc' = .wantBox ref b (todo.eraseIdx k) → s'.heap = s.heap → Course s s' e m id pc'
  | ran {pc} : s.threads[m]? = some (.statuses id pc) → e = .run m → StatusQuiet s id pc pc' → s'.heap = s.heap →
      Course s s' e m id pc'
  | called : m = s.threads.length → e ≠ .run m → pc' = .wantVoting → Course s s' e m id pc'

/-- A goroutine that is no `Statuses` moves and may start others that are none. -/
theorem course_of_set {e : Event} {t : Thread} {l : List Thread} {id : Hash} {pc' : StatusPc}
    (hs : s'.threads = s.threads.set n t ++ l) (ht : ∀ id pc, t ≠ .statuses id pc)
    (hl : ∀ u ∈ l, ∀ id pc, u ≠ .statuses id pc) (he : e = .run n ∨ ∀ k, e ≠ .run k)
    (hm : s'.threads[m]? = some (.statuses id pc')) : Course s s' e m id pc' := by
  rw [hs, List.getElem?_append] at hm
  split at hm
  next hlt =>
    rw [List.getElem?_set] at hm
    split at hm
    next =>
      split at hm
      · cases hm; exact absurd rfl (ht _ _)
      · cases hm
    next hne =>
      refine .untouched hm ?_
      rcases he with rfl | he
      · exact fun heq => hne (Event.run.inj heq)
      · exact he m
  next => exact absurd rfl (hl _ (List.mem_of_getElem? hm) id pc')

theorem course {e : Event} {id : Hash} {pc' : StatusPc} (h : step dep cfg policy s e = some s')
    (hm : s'.threads[m]? = some (.statuses id pc')) : Course s s' e m id pc' := by
  cases e with
  | addVote a =>
    cases h
    rcases Lts.getElem?_snoc.mp hm with hm | ⟨-, heq⟩
    · exact .untouched hm (by simp)
    · cases heq
  | statuses id' =>
    cases h
    rcases Lts.getElem?_snoc.mp hm with hm | ⟨rfl, heq⟩
    · exact .untouched hm (by simp)
    · cases heq; exact .called rfl (by simp) rfl
  | cancel n =>
    simp only [step] at h
    split at h <;> cases h
    exact course_of_set (List.append_nil _).symm (by simp) (by simp) (.inr (by simp)) hm
  | pick n k =>
    simp only [step] at h
    split at h
    next id' ref todo hn =>
      obtain ⟨b, hb, rfl⟩ := Option.map_eq_some_iff.mp h
      simp only [State.set, List.getElem?_set] at hm
      split at hm
      next heq =>
        subst heq
        split at hm <;> cases hm
        exact .picked hn (by simp) hb rfl rfl
      next => exact .untouched hm (by simp)
    next => cases h
  | run n =>
    simp only [step] at h
    split at h
    next =>
      obtain ⟨against', pc'', l, hs, hl⟩ := threads_stepVote h
      refine course_of_set hs (by simp) (fun u hu id pc heq => ?_) (.inl rfl) hm
      obtain ⟨_, _, _, _, rfl⟩ := hl u hu
      cases heq
    next =>
      obtain ⟨pc'', hs⟩ := threads_stepEnd h
      exact course_of_set (hs.trans (List.append_nil _).symm) (by simp) (by simp) (.inl rfl) hm
    next id' pc hn =>
      obtain ⟨pc'', rfl, hq⟩ := stepStatuses_quiet h
      simp only [State.set, List.getElem?_set] at hm
      split at hm
      next heq =>
        subst heq
        split at hm <;> cases hm
        exact .ran hn rfl hq rfl
      next hne => exact .untouched hm fun heq => hne (Event.run.inj heq)
    next => cases h

end Threads

/-! ## What an expiration leaves -/

/-- The box at `b` as it was, or expired since. -/
def Aged (h h' : Heap) (b : Nat) : Prop :=
  ∃ d d', h.voteBox[b]? = some d ∧ h'.voteBox[b]? = some d' ∧ d'.id = d.id ∧ d'.hash = d.hash ∧
    (d'.box.status = d.box.status ∨ d'.box.status = d.box.delete.status)

/-- The box at `b` has expired. -/
def Ended (h : Heap) (b : Nat) : Prop := ∃ d, h.voteBox[b]? = some d ∧ d.box.deleted = true

/-- The `voteBoxes` at `ref` is the same, and the boxes of its ID are the same
or have expired. -/
structure Stays (h h' : Heap) (ref : Nat) (id : Hash) : Prop where
  cell : h'.voteBoxes[ref]? = h.voteBoxes[ref]?
  boxes : ∀ b hash, h.IsBox b id hash → Aged h h' b

section Stays

variable {dep : Deps} {cfg : Config} {policy : SigningPolicy} {s s' : State} {n : Nat} {h h' h'' : Heap} {ref b : Nat}
  {id hash : Hash}

theorem Aged.of_eq {d : BoxCell} (hb : h.voteBox[b]? = some d) (hb' : h'.voteBox[b]? = some d) : Aged h h' b :=
  ⟨d, d, hb, hb', rfl, rfl, .inl rfl⟩

theorem Aged.isBox (ha : Aged h h' b) (hb : h.IsBox b id hash) : h'.IsBox b id hash := by
  obtain ⟨d, d', hd, hd', hid, hhash, -⟩ := ha
  obtain ⟨e, he, rfl, rfl⟩ := hb
  rw [hd, Option.some.injEq] at he
  subst he
  exact ⟨d', hd', hid, hhash⟩

theorem Aged.trans (h₁ : Aged h h' b) (h₂ : Aged h' h'' b) : Aged h h'' b := by
  obtain ⟨d, d', hd, hd', hid, hhash, hold⟩ := h₁
  obtain ⟨e, e', he, he', hid', hhash', hnew⟩ := h₂
  rw [hd', Option.some.injEq] at he
  subst he
  refine ⟨d, e', hd, he', hid'.trans hid, hhash'.trans hhash, ?_⟩
  rw [status_delete] at hold hnew ⊢
  rcases hnew with hnew | hnew
  · rw [hnew]; exact hold
  · rcases hold with hold | hold
    · exact .inr (by rw [hnew, hold])
    · exact .inr (by rw [hnew, hold])

theorem Stays.of_heap_eq (heq : h' = h) : Stays h h' ref id := by
  subst heq
  refine ⟨rfl, fun b hash hb => ?_⟩
  obtain ⟨d, hd, -⟩ := hb
  exact .of_eq hd hd

theorem Stays.trans (h₁ : Stays h h' ref id) (h₂ : Stays h' h'' ref id) : Stays h h'' ref id where
  cell := h₂.cell.trans h₁.cell
  boxes b hash hb :=
    have haged := h₁.boxes b hash hb
    haged.trans (h₂.boxes b hash (haged.isBox hb))

theorem Stays.write {ref' b' : Nat} {id' hash' : Hash} {box : VoteBox} {fin : Hash} (hok : h.OK)
    (hfor : h.IsFor ref id) (hfor' : h.IsFor ref' id') (hbox' : h.IsBox b' id' hash') (hne : ref' ≠ ref) :
    Stays h (h.write ref' b' box fin) ref id := by
  refine ⟨?_, fun b hash hb => ?_⟩
  · simp only [Heap.write, List.getElem?_modify, if_neg hne]
    cases h.voteBoxes[ref]? <;> rfl
  · obtain ⟨d, hd, hid, -⟩ := hb
    have hbb : b' ≠ b := by
      rintro rfl
      obtain ⟨d', hd', hid', -⟩ := hbox'
      rw [hd, Option.some.injEq] at hd'
      subst hd'
      rw [hid] at hid'
      subst hid'
      exact hne (hok.ref_eq hfor' hfor)
    refine .of_eq hd ?_
    simp only [Heap.write, List.getElem?_modify, if_neg hbb, hd]
    rfl

/-- The end of a box of the same ID writes the finalized hash that is there. -/
theorem Stays.expire {ref' b' : Nat} {c : BoxesCell} {d : BoxCell} (hc : h.voteBoxes[ref']? = some c)
    (hd : h.voteBox[b']? = some d) : Stays h (h.write ref' b' d.box.delete c.finalizedHash) ref id := by
  refine ⟨?_, fun b hash hb => ?_⟩
  · simp only [Heap.write, List.getElem?_modify]
    by_cases hr : ref' = ref
    · subst hr
      simp only [if_true, hc]
      rfl
    · simp only [if_neg hr]
      cases h.voteBoxes[ref]? <;> rfl
  · obtain ⟨e, he, -⟩ := hb
    by_cases hbb : b' = b
    · subst hbb
      rw [hd, Option.some.injEq] at he
      subst he
      exact ⟨d, { d with box := d.box.delete }, hd, by simp [Heap.write, hd], rfl, rfl, .inr rfl⟩
    · exact .of_eq he (by simp [Heap.write, List.getElem?_modify, if_neg hbb, he])

theorem Stays.publish {ref? : Option Nat} {id' hash' : Hash} {box : VoteBox} {fin : Hash}
    (hfor : h.IsFor ref id) (hne : ref ≠ h.slotRef ref?) : Stays h (h.publish ref? id' hash' box fin) ref id := by
  obtain ⟨c, hc, -⟩ := hfor
  refine ⟨(Heap.cell_publish_ne hc hne).trans hc.symm, fun b hash hb => ?_⟩
  obtain ⟨d, hd, -⟩ := hb
  refine .of_eq hd ?_
  have hcell : (h.publish ref? id' hash' box fin).voteBox = h.voteBox ++ [⟨id', hash', box⟩] := by
    cases ref? <;> rfl
  rw [hcell, List.getElem?_append_left (List.getElem?_eq_some_iff.mp hd).1, hd]

/-- A box that has expired takes no more votes and stays expired. -/
theorem Ended.step (he : Ended s.heap b) (hs : Step dep cfg policy s s') : Ended s'.heap b := by
  obtain ⟨d, hd, hdel⟩ := he
  cases hs with
  | addVote | statuses | quiet | early | full | reserve | buildFailed | firstFailed => exact ⟨d, hd, hdel⟩
  | @publish m a against ref? box box' fin voted hm =>
    have hcell : (s.heap.publish ref? a.id a.hash box' fin).voteBox = s.heap.voteBox ++ [⟨a.id, a.hash, box'⟩] := by
      cases ref? <;> rfl
    refine ⟨d, ?_, hdel⟩
    rw [hcell, List.getElem?_append_left (List.getElem?_eq_some_iff.mp hd).1, hd]
  | @vote m a against ref' b' c d' box fin res hm hc hd' heffect =>
    by_cases hbb : b' = b
    · subst hbb
      rw [hd, Option.some.injEq] at hd'
      subst hd'
      rw [voteEffect_ended hdel] at heffect
      cases heffect
      exact ⟨d, by simp [Heap.write, hd], hdel⟩
    · exact ⟨d, by simp [Heap.write, List.getElem?_modify, if_neg hbb, hd], hdel⟩
  | @expire m id' hash' ref' b' c d' hm hc hd' =>
    by_cases hbb : b' = b
    · subst hbb
      exact ⟨{ d' with box := d'.box.delete }, by simp [Heap.write, hd'], rfl⟩
    · exact ⟨d, by simp [Heap.write, List.getElem?_modify, if_neg hbb, hd], hdel⟩

/-- **While a call reads, only expirations are seen.** -/
theorem Guarded.stays (hg : Guarded dep cfg policy s) (hs : Step dep cfg policy s s') {pc : StatusPc}
    (hn : s.threads[n]? = some (.statuses id pc)) (hread : (.boxes ref, .read) ∈ pc.stance.held)
    (hfor : s.heap.IsFor ref id) : Stays s.heap s'.heap ref id := by
  -- no other goroutine has the lock for writing
  have hexcl : ∀ (m : Nat) (t : Thread), s.threads[m]? = some t → (.boxes ref, .write) ∈ t.stance.held → False := by
    intro m t hm hw
    have heq := hg.exclusive m n _ _ (.boxes ref) (stances_of_thread hm) (stances_of_thread hn) hw (.inl hread)
    subst heq
    rw [hn, Option.some.injEq] at hm
    subst hm
    cases pc <;> simp [Thread.stance, StatusPc.stance, RwMutex.Stance.idle] at hw
  cases hs with
  | addVote | statuses | quiet | early | full | reserve | buildFailed | firstFailed => exact .of_heap_eq rfl
  | @publish m a against ref? box box' fin voted hm =>
    refine .publish hfor fun heq => ?_
    cases ref? with
    | none => exact absurd hfor.lt (by rw [heq]; exact Nat.lt_irrefl _)
    | some ref' =>
      obtain rfl : ref = ref' := heq
      exact hexcl _ _ hm (by simp [Thread.stance, VotePc.stance, slotLock])
  | @vote m a against ref' b c d box fin res hm hc hd =>
    obtain ⟨hfor', hbox'⟩ := hg.knows _ _ hm
    refine .write hg.heap hfor hfor' hbox' fun heq => ?_
    subst heq
    exact hexcl _ _ hm (by simp [Thread.stance, VotePc.stance])
  | expire hm hc hd => exact .expire hc hd

end Stays

/-! ## What a call has read -/

/-- The boxes a call has still to read, and their `voteBoxes`. -/
def StatusPc.left : StatusPc → Option (Nat × List Nat)
  | .reading ref todo => some (ref, todo)
  | .wantBox ref b todo | .readingBox ref b todo => some (ref, b :: todo)
  | _ => none

/-- The call has not read a box yet. -/
def StatusPc.before : StatusPc → Bool
  | .wantVoting | .heldVoting | .wantBoxes _ => true
  | _ => false

/-- A status of the box at `b` as it was in `h₀`, or as expired if it has
expired by `h`. -/
def Seen (h₀ h : Heap) (st : Status) (b : Nat) : Prop :=
  ∃ d, h₀.voteBox[b]? = some d ∧ (st = d.box.status ∨ st = d.box.delete.status ∧ Ended h b)

theorem Seen.later {h₀ h h' : Heap} {st : Status} {b : Nat} (hs : Seen h₀ h st b)
    (hended : ∀ b, Ended h b → Ended h' b) : Seen h₀ h' st b := by
  obtain ⟨d, hd, hst | ⟨hst, he⟩⟩ := hs
  · exact ⟨d, hd, .inl hst⟩
  · exact ⟨d, hd, .inr ⟨hst, hended b he⟩⟩

/-- The call read the map in `h₀` and has now `todo` left of it. -/
structure Reading (h₀ h : Heap) (id : Hash) (ref : Nat) (todo : List Nat) (status : List Status) : Prop where
  isFor : h₀.IsFor ref id
  stays : Stays h₀ h ref id
  listed : ∃ c done, h₀.voteBoxes[ref]? = some c ∧ (done ++ todo).Perm c.m.values ∧
    List.Forall₂ (Seen h₀ h) status done

/-- Where the boxes of an ID are. -/
def refsOf (h : Heap) (id : Hash) : List Nat :=
  (((h.voting.get? id).bind fun ref => h.voteBoxes[ref]?).map fun c => c.m.values).getD []

/-- The boxes of an ID. -/
def boxesOf (h : Heap) (id : Hash) : List VoteBox :=
  (((h.voting.get? id).bind fun ref => h.voteBoxes[ref]?).map fun c =>
    c.m.values.filterMap fun b => h.voteBox[b]?.map (·.box)).getD []

/-- A response shows the boxes of its ID in `h₀`, each as it was, or as expired
if it has expired by `h`. -/
structure Shows (h₀ h : Heap) (r : Statuses) : Prop where
  finalizedHash : r.finalizedHash = h₀.finalizedHash r.instructionID
  status : ∃ refs, refs.Perm (refsOf h₀ r.instructionID) ∧ List.Forall₂ (Seen h₀ h) r.status refs

section Reading

variable {h₀ h h' : Heap} {id : Hash} {ref b k : Nat} {todo : List Nat} {status : List Status} {c : BoxesCell}

theorem Reading.start (hfor : h.IsFor ref id) (hc : h.voteBoxes[ref]? = some c) : Reading h h id ref c.m.values [] :=
  ⟨hfor, .of_heap_eq rfl, c, [], hc, .refl _, .nil⟩

theorem Reading.later (hr : Reading h₀ h id ref todo status) (hs : Stays h h' ref id)
    (hended : ∀ b, Ended h b → Ended h' b) : Reading h₀ h' id ref todo status := by
  obtain ⟨c, done, hc, hperm, hseen⟩ := hr.listed
  exact ⟨hr.isFor, hr.stays.trans hs, c, done, hc, hperm, hseen.imp fun _ _ hst => hst.later hended⟩

theorem Reading.pick (hr : Reading h₀ h id ref todo status) (hb : todo[k]? = some b) :
    Reading h₀ h id ref (b :: todo.eraseIdx k) status := by
  obtain ⟨c, done, hc, hperm, hseen⟩ := hr.listed
  obtain ⟨hlt, rfl⟩ := List.getElem?_eq_some_iff.mp hb
  exact ⟨hr.isFor, hr.stays, c, done, hc, ((List.getElem_cons_eraseIdx_perm hlt).append_left done).trans hperm, hseen⟩

/-- The status of the next box is that of the box as it was, or expired. -/
theorem Reading.read (hok : h₀.OK) (hr : Reading h₀ h id ref (b :: todo) status) :
    Reading h₀ h id ref todo (status ++ (h.voteBox[b]?.map fun d => d.box.status).toList) := by
  obtain ⟨c, done, hc, hperm, hseen⟩ := hr.listed
  have hmem : b ∈ c.m.values := hperm.subset (List.mem_append_right _ List.mem_cons_self)
  obtain ⟨hash, hget⟩ := GoMap.mem_values.mp hmem
  have hbox : h₀.IsBox b id hash := (hok.find ref b id hash hr.isFor).mp (by rw [Heap.find, hc]; exact hget)
  obtain ⟨d, d', hd, hd', -, -, hst⟩ := hr.stays.boxes b hash hbox
  refine ⟨hr.isFor, hr.stays, c, done ++ [b], hc, ?_, ?_⟩
  · rw [List.append_assoc]; exact hperm
  · rw [hd']
    have hended : d'.box.status = d.box.delete.status → Ended h b := fun heq =>
      ⟨d', hd', congrArg Status.deleted heq⟩
    exact List.rel_append hseen (.cons ⟨d, hd, hst.imp_right fun heq => ⟨heq, hended heq⟩⟩ .nil)

theorem Reading.shows (hok : h₀.OK) (hr : Reading h₀ h id ref [] status) (hc : h.voteBoxes[ref]? = some c) :
    Shows h₀ h ⟨id, c.finalizedHash, status⟩ := by
  obtain ⟨c', done, hc', hperm, hseen⟩ := hr.listed
  have hc₀ : h₀.voteBoxes[ref]? = some c := hr.stays.cell.symm.trans hc
  obtain rfl : c' = c := Option.some.inj (hc'.symm.trans hc₀)
  have hget : h₀.voting.get? id = some ref := (hok.voting id ref).mpr hr.isFor
  refine ⟨?_, done, ?_, hseen⟩
  · simp only [Heap.finalizedHash, hget, Option.bind_some, hc₀, Option.map_some, Option.getD_some]
  · rw [List.append_nil] at hperm
    simp only [refsOf, hget, Option.bind_some, hc₀, Option.map_some, Option.getD_some]
    exact hperm

theorem Shows.later {r : Statuses} (hr : Shows h₀ h r) (hended : ∀ b, Ended h b → Ended h' b) : Shows h₀ h' r := by
  obtain ⟨refs, hperm, hseen⟩ := hr.status
  exact ⟨hr.finalizedHash, refs, hperm, hseen.imp fun _ _ hst => hst.later hended⟩

theorem filterMap_refsOf (h : Heap) (id : Hash) :
    (refsOf h id).filterMap (fun b => h.voteBox[b]?.map (·.box)) = boxesOf h id := by
  unfold refsOf boxesOf
  cases (h.voting.get? id).bind fun ref => h.voteBoxes[ref]? <;> rfl

theorem forall₂_boxes {refs : List Nat} (hseen : List.Forall₂ (Seen h₀ h) status refs) :
    List.Forall₂ (fun st box => st = box.status ∨ st = box.delete.status) status
      (refs.filterMap fun b => h₀.voteBox[b]?.map (·.box)) := by
  induction hseen with
  | nil => exact .nil
  | cons hst _ ih =>
    obtain ⟨d, hd, hst⟩ := hst
    rw [List.filterMap_cons_some (by rw [hd]; rfl)]
    exact .cons (hst.imp_right And.left) ih

theorem Shows.boxes {r : Statuses} (hr : Shows h₀ h r) : ∃ boxes, boxes.Perm (boxesOf h₀ r.instructionID) ∧
    List.Forall₂ (fun st box => st = box.status ∨ st = box.delete.status) r.status boxes := by
  obtain ⟨refs, hperm, hseen⟩ := hr.status
  exact ⟨_, filterMap_refsOf h₀ r.instructionID ▸ hperm.filterMap _, forall₂_boxes hseen⟩

end Reading

/-! ## Every call of every run -/

section Runs

variable {dep : Deps} {cfg : Config} {policy : SigningPolicy} {ok : Observed → Event → Prop} {s s' : Observed}

theorem locks_reach (h : Lts.Reach (observed dep cfg policy) ok s) :
    Lts.Reach (system dep cfg policy) Lts.Free s.locks := by
  refine h.simulation Observed.locks ?_ ?_
  · rintro s rfl; rfl
  · intro s e s' _ _ _ hs
    obtain ⟨locks, hl, rfl⟩ := Option.map_eq_some_iff.mp hs
    exact .inr ⟨e, trivial, hl⟩

theorem length_threads {s s' : State} (hs : Step dep cfg policy s s') : s.threads.length ≤ s'.threads.length := by
  cases hs <;> simp [State.set]

theorem observe_ne {e : Event} {n : Nat} (he : e ≠ .run n) : observe s e n = s.reports n := by
  rw [observe, if_neg]
  intro hruns
  cases e with
  | run m => exact he (congrArg _ (Option.some.inj hruns))
  | _ => cases hruns

theorem observe_run {n : Nat} {id : Hash} {pc : StatusPc} (hn : s.locks.threads[n]? = some (.statuses id pc)) :
    observe s (.run n) n = (s.reports n).next s.locks.heap id pc := by
  simp only [observe, Event.runs, if_true, hn]

theorem observe_absent {e : Event} {n : Nat} (hn : s.locks.threads.length ≤ n) : observe s e n = s.reports n := by
  rw [observe, List.getElem?_eq_none hn]
  split <;> rfl

/-- A step of the call up to its first box leaves the list empty. -/
theorem status_next {r : Report} {h : Heap} {id : Hash} {pc : StatusPc} (hpc : pc.before = true) :
    (r.next h id pc).status = r.status := by
  cases pc with
  | heldVoting => simp only [Report.next]; split <;> rfl
  | wantVoting | wantBoxes => rfl
  | _ => cases hpc

theorem reports_fresh (h : Lts.Reach (observed dep cfg policy) ok s) :
    ∀ n, s.locks.threads.length ≤ n → s.reports n = .new := by
  refine h.invariant (fun s => ∀ n, s.locks.threads.length ≤ n → s.reports n = .new) ?_ ?_
  · rintro s rfl n -
    rfl
  · intro s e s' _ ih _ hs n hn
    obtain ⟨locks, hl, rfl⟩ := Option.map_eq_some_iff.mp hs
    have hle := (length_threads (step_inv hl)).trans hn
    exact (observe_absent hle).trans (ih n hle)

/-- A call with boxes left holds the lock of its `voteBoxes`, so that only
expirations are seen. -/
theorem stays_of_left (h : Lts.Reach (observed dep cfg policy) ok s) {e : Event} {locks : State}
    (hl : step dep cfg policy s.locks e = some locks) {n : Nat} {id : Hash} {pc : StatusPc} {ref : Nat}
    {todo : List Nat}
    (hn : s.locks.threads[n]? = some (.statuses id pc)) (hpc : pc.left = some (ref, todo)) :
    Stays s.locks.heap locks.heap ref id := by
  have hg := guarded (locks_reach h)
  have hheld : (.boxes ref, .read) ∈ pc.stance.held := by
    cases pc <;> cases hpc <;> simp [StatusPc.stance]
  have hfor : s.locks.heap.IsFor ref id := by
    have hknows := hg.knows n _ hn
    cases pc <;> cases hpc
    · exact hknows.1
    · exact hknows.1
    · exact hknows.1
  exact hg.stays (step_inv hl) hn hheld hfor

/-- What to show of the calls made after `s₁`: `R` of a call with the boxes
`todo` left and the list `status` so far, `A` of what a call returned. -/
structure ReadRule (dep : Deps) (cfg : Config) (policy : SigningPolicy) (ok : Observed → Event → Prop) (s₁ : Observed)
    (R : Observed → Nat → Hash → Nat → List Nat → List Status → Prop) (A : Observed → Nat → Statuses → Prop) :
    Prop where
  start : ∀ s n id ref c, Lts.Later (observed dep cfg policy) ok s₁ s →
    s.locks.threads[n]? = some (.statuses id (.wantBoxes ref)) → s.locks.heap.IsFor ref id →
    s.locks.heap.voteBoxes[ref]? = some c → R s n id ref c.m.values []
  pick : ∀ s n id ref k b (todo : List Nat) status, R s n id ref todo status → todo[k]? = some b →
    R s n id ref (b :: todo.eraseIdx k) status
  read : ∀ s n id ref b todo status, Lts.Later (observed dep cfg policy) ok s₁ s → R s n id ref (b :: todo) status →
    R s n id ref todo (status ++ (s.locks.heap.voteBox[b]?.map fun d => d.box.status).toList)
  finish : ∀ s n id ref c status, Lts.Later (observed dep cfg policy) ok s₁ s → R s n id ref [] status →
    s.locks.heap.IsFor ref id → s.locks.heap.voteBoxes[ref]? = some c → A s n ⟨id, c.finalizedHash, status⟩
  goOn : ∀ s e s' n id ref todo status, Lts.Later (observed dep cfg policy) ok s₁ s → ok s e →
    (observed dep cfg policy).step s e = some s' → Stays s.locks.heap s'.locks.heap ref id →
    R s n id ref todo status → R s' n id ref todo status
  keep : ∀ s e s' n r, Lts.Later (observed dep cfg policy) ok s₁ s → ok s e →
    (observed dep cfg policy).step s e = some s' → A s n r → A s' n r

/-- The calls from number `first` on. -/
structure CallsFrom (first : Nat) (R : Observed → Nat → Hash → Nat → List Nat → List Status → Prop)
    (A : Observed → Nat → Statuses → Prop) (s : Observed) : Prop where
  before : ∀ n id pc, first ≤ n → s.locks.threads[n]? = some (.statuses id pc) → pc.before = true →
    (s.reports n).status = []
  reading : ∀ n id pc ref todo, first ≤ n → s.locks.threads[n]? = some (.statuses id pc) →
    pc.left = some (ref, todo) → R s n id ref todo (s.reports n).status
  answered : ∀ n r, first ≤ n → (s.reports n).result = some (.ok r) → A s n r

section Rule

variable {s₁ : Observed} {R : Observed → Nat → Hash → Nat → List Nat → List Status → Prop}
  {A : Observed → Nat → Statuses → Prop} {first : Nat} {e : Event}

theorem ReadRule.before_step (hr : Lts.Reach (observed dep cfg policy) ok s) (ih : CallsFrom first R A s)
    {locks : State} (hl : step dep cfg policy s.locks e = some locks) {n : Nat} {id : Hash} {pc' : StatusPc}
    (hfirst : first ≤ n) (hn : locks.threads[n]? = some (.statuses id pc')) (hpc : pc'.before = true) :
    (observe s e n).status = [] := by
  cases course hl hn with
  | untouched hold hrun => exact (congrArg Report.status (observe_ne hrun)).trans (ih.before n id pc' hfirst hold hpc)
  | picked _ _ _ hpc' => rw [hpc'] at hpc; cases hpc
  | @ran pc hold hrun hq =>
    have hbefore : pc.before = true := by cases hq <;> first | rfl | cases hpc
    subst hrun
    exact (congrArg Report.status (observe_run hold)).trans
      ((status_next hbefore).trans (ih.before n id pc hfirst hold hbefore))
  | called hlen hrun =>
    exact congrArg Report.status ((observe_ne hrun).trans (reports_fresh hr n hlen.ge))

theorem ReadRule.reading_step (rule : ReadRule dep cfg policy ok s₁ R A)
    (hr : Lts.Reach (observed dep cfg policy) ok s) (hlater : Lts.Later (observed dep cfg policy) ok s₁ s)
    (ih : CallsFrom first R A s) (he : ok s e) {locks : State} (hl : step dep cfg policy s.locks e = some locks)
    {n : Nat}
    {id : Hash} {pc' : StatusPc} {ref : Nat} {todo : List Nat} (hfirst : first ≤ n)
    (hn : locks.threads[n]? = some (.statuses id pc')) (hpc : pc'.left = some (ref, todo)) :
    R ⟨locks, observe s e⟩ n id ref todo (observe s e n).status := by
  have hs : (observed dep cfg policy).step s e = some ⟨locks, observe s e⟩ := Option.map_eq_some_iff.mpr ⟨_, hl, rfl⟩
  have hgoOn : ∀ {pc todo}, s.locks.threads[n]? = some (.statuses id pc) → pc.left = some (ref, todo) →
      R ⟨locks, observe s e⟩ n id ref todo (s.reports n).status := fun hold hleft =>
    rule.goOn s e _ n id ref _ _ hlater he hs (stays_of_left hr hl hold hleft)
      (ih.reading n id _ ref _ hfirst hold hleft)
  cases course hl hn with
  | untouched hold hrun => rw [observe_ne hrun]; exact hgoOn hold hpc
  | picked hold hrun hb hpc' =>
    subst hpc'
    cases hpc
    rw [observe_ne hrun]
    exact rule.pick _ n id ref _ _ _ _ (hgoOn hold rfl) hb
  | @ran pc hold hrun hq hheap =>
    subst hrun
    rw [observe_run hold]
    cases hq with
    | enterVoting | known | missing | unlockBoxes => cases hpc
    | enterBoxes hc =>
      cases hpc
      have hstart := rule.start s n id ref _ hlater hold ((guarded (locks_reach hr)).knows n _ hold) hc
      rw [Report.next, ih.before n id _ hfirst hold rfl]
      exact rule.goOn s _ _ n id ref _ _ hlater he hs (.of_heap_eq hheap) hstart
    | @pick ref' b k todo' hb =>
      cases hpc
      cases todo' with
      | nil => cases hb
      | cons => exact rule.pick _ n id ref _ _ _ _ (hgoOn hold rfl) hb
    | enterBox =>
      cases hpc
      exact hgoOn hold rfl
    | unlockBox =>
      cases hpc
      exact rule.goOn s _ _ n id ref _ _ hlater he hs (.of_heap_eq hheap)
        (rule.read s n id ref _ _ _ hlater (ih.reading n id _ ref _ hfirst hold rfl))
  | called _ _ hpc' => rw [hpc'] at hpc; cases hpc

theorem ReadRule.answered_step (rule : ReadRule dep cfg policy ok s₁ R A)
    (hr : Lts.Reach (observed dep cfg policy) ok s) (hlater : Lts.Later (observed dep cfg policy) ok s₁ s)
    (ih : CallsFrom first R A s) {n : Nat} {r : Statuses} (hfirst : first ≤ n)
    (hres : (observe s e n).result = some (.ok r)) : A s n r := by
  unfold observe at hres
  split at hres
  next =>
    split at hres
    next id pc hn =>
      cases pc with
      | heldVoting =>
        simp only [Report.next] at hres
        split at hres
        · cases hres
        · exact ih.answered n r hfirst hres
      | reading ref todo =>
        cases todo with
        | cons => exact ih.answered n r hfirst hres
        | nil =>
          simp only [Report.next] at hres
          split at hres
          · exact ih.answered n r hfirst hres
          next c hc =>
            cases hres
            exact rule.finish s n id ref c _ hlater (ih.reading n id _ ref [] hfirst hn rfl)
              ((guarded (locks_reach hr)).knows n _ hn).1 hc
      | _ => exact ih.answered n r hfirst hres
    next => exact ih.answered n r hfirst hres
  next => exact ih.answered n r hfirst hres

/-- **The rule for calls.** -/
theorem ReadRule.holds (rule : ReadRule dep cfg policy ok s₁ R A) (hr : Lts.Reach (observed dep cfg policy) ok s₁)
    (hlater : Lts.Later (observed dep cfg policy) ok s₁ s) : CallsFrom s₁.locks.threads.length R A s := by
  induction hlater with
  | refl =>
    refine ⟨fun n id pc hfirst _ _ => ?_, fun n id pc ref todo hfirst hn => ?_, fun n r hfirst hres => ?_⟩
    · rw [reports_fresh hr n hfirst]
      rfl
    · rw [List.getElem?_eq_none hfirst] at hn
      cases hn
    · rw [reports_fresh hr n hfirst] at hres
      cases hres
  | step hlater he hs ih =>
    obtain ⟨locks, hl, rfl⟩ := Option.map_eq_some_iff.mp hs
    have hreach := hr.later hlater
    exact ⟨fun n id pc hfirst hn hpc => before_step hreach ih hl hfirst hn hpc,
      fun n id pc ref todo hfirst hn hpc => rule.reading_step hreach hlater ih he hl hfirst hn hpc,
      fun n r hfirst hres => rule.keep _ _ _ n r hlater he hs (rule.answered_step hreach hlater ih hfirst hres)⟩

end Rule

/-! ## A response is a snapshot -/

/-- The call took the lock of its `voteBoxes` in `s₀`. -/
structure TookAt (dep : Deps) (cfg : Config) (policy : SigningPolicy) (ok : Observed → Event → Prop) (s₀ s : Observed)
    (n : Nat) (id : Hash) (ref : Nat) : Prop where
  reach : Lts.Reach (observed dep cfg policy) ok s₀
  later : Lts.Later (observed dep cfg policy) ok s₀ s
  waits : s₀.locks.threads[n]? = some (.statuses id (.wantBoxes ref))

theorem TookAt.step {s₀ : Observed} {n : Nat} {id : Hash} {ref : Nat} {e : Event}
    (h : TookAt dep cfg policy ok s₀ s n id ref) (he : ok s e) (hs : (observed dep cfg policy).step s e = some s') :
    TookAt dep cfg policy ok s₀ s' n id ref :=
  ⟨h.reach, h.later.step he hs, h.waits⟩

theorem ended_step {e : Event} {b : Nat} (hs : (observed dep cfg policy).step s e = some s')
    (he : Ended s.locks.heap b) : Ended s'.locks.heap b := by
  obtain ⟨locks, hl, rfl⟩ := Option.map_eq_some_iff.mp hs
  exact he.step (step_inv hl)

theorem readRule_snapshot {s₁ : Observed} (hr : Lts.Reach (observed dep cfg policy) ok s₁) :
    ReadRule dep cfg policy ok s₁
      (fun s n id ref todo status => ∃ s₀, TookAt dep cfg policy ok s₀ s n id ref ∧
        Reading s₀.locks.heap s.locks.heap id ref todo status)
      (fun s n r => ∃ s₀ ref, TookAt dep cfg policy ok s₀ s n r.instructionID ref ∧
        Shows s₀.locks.heap s.locks.heap r) where
  start s n id ref c hl hn hfor hc := ⟨s, ⟨hr.later hl, .refl, hn⟩, .start hfor hc⟩
  pick s n id ref k b todo status h hb := by
    obtain ⟨s₀, htook, hreading⟩ := h
    exact ⟨s₀, htook, hreading.pick hb⟩
  read s n id ref b todo status hl h := by
    obtain ⟨s₀, htook, hreading⟩ := h
    exact ⟨s₀, htook, hreading.read (guarded (locks_reach htook.reach)).heap⟩
  finish s n id ref c status hl h hfor hc := by
    obtain ⟨s₀, htook, hreading⟩ := h
    exact ⟨s₀, ref, htook, hreading.shows (guarded (locks_reach htook.reach)).heap hc⟩
  goOn s e s' n id ref todo status hl he hs hstays h := by
    obtain ⟨s₀, htook, hreading⟩ := h
    exact ⟨s₀, htook.step he hs, hreading.later hstays fun b => ended_step hs⟩
  keep s e s' n r hl he hs h := by
    obtain ⟨s₀, ref, htook, hshows⟩ := h
    exact ⟨s₀, ref, htook.step he hs, hshows.later fun b => ended_step hs⟩

theorem snapshot (h : Lts.Reach (observed dep cfg policy) ok s) {n : Nat} {r : Statuses}
    (hres : (s.reports n).result = some (.ok r)) :
    ∃ s₀ ref, TookAt dep cfg policy ok s₀ s n r.instructionID ref ∧ Shows s₀.locks.heap s.locks.heap r := by
  obtain ⟨s₁, rfl, hlater⟩ := h.origin
  have hr : Lts.Reach (observed dep cfg policy) ok _ := .init rfl
  exact ((readRule_snapshot hr).holds hr hlater).answered n r (Nat.zero_le n) hres

/-- **A response is a snapshot**, in every interleaving of `Statuses` calls with
votes and expirations: for what a call returned there was a moment of the call
(it had found the `voteBoxes` of its ID and had not taken their lock) at which
the finalized hash was the one returned and the boxes of the ID were exactly
those listed, each with the status it is listed with, except that a box which
has expired by now may be listed as expired. -/
theorem statuses_snapshot (h : Lts.Reach (observed dep cfg policy) Lts.Free s) {n : Nat} {r : Statuses}
    (hres : (s.reports n).result = some (.ok r)) :
    ∃ s₀ ref, Lts.Reach (observed dep cfg policy) Lts.Free s₀ ∧ Lts.Later (observed dep cfg policy) Lts.Free s₀ s ∧
      s₀.locks.threads[n]? = some (.statuses r.instructionID (.wantBoxes ref)) ∧
      r.finalizedHash = s₀.locks.heap.finalizedHash r.instructionID ∧
      ∃ refs, refs.Perm (refsOf s₀.locks.heap r.instructionID) ∧
        List.Forall₂ (Seen s₀.locks.heap s.locks.heap) r.status refs := by
  obtain ⟨s₀, ref, htook, hshows⟩ := snapshot h hres
  exact ⟨s₀, ref, htook.reach, htook.later, htook.waits, hshows.finalizedHash, hshows.status⟩

end Runs

/-- Two voters finalize the first box of an ID and one opens a second. A call
reads the first box, the second expires, and the call goes on to it. -/
def readAcrossExpiry : List Event :=
  List.flatten [
    [.addVote ⟨6, plainCall 7 1 5 1 [1], clockAt 100⟩], List.replicate 9 (.run 0),
    [.addVote ⟨6, plainCall 7 1 5 2 [2], clockAt 101⟩], List.replicate 11 (.run 2),
    [.addVote ⟨7, plainCall 7 1 6 1 [3], clockAt 102⟩], List.replicate 10 (.run 3),
    [.statuses 1, .run 5, .run 5, .run 5, .pick 5 1, .run 5, .run 5], List.replicate 7 (.run 4),
    [.pick 5 0, .run 5, .run 5, .run 5]]

/-- What that call returns. -/
def acrossExpiry : Statuses :=
  ⟨1, 6, [⟨6, true, false, 100, 160, 4, [1, 2], 3, 0, 0⟩, ⟨7, false, true, 102, 162, 2, [], 3, 0, 0⟩]⟩

theorem statuses_snapshot_acrossExpiry :
    ∃ s s₀, (s.reports 5).result = some (.ok acrossExpiry) ∧
      Lts.Reach (observed plainDeps plainConfig (twoVoters 7)) Lts.Free s₀ ∧
      Lts.Later (observed plainDeps plainConfig (twoVoters 7)) Lts.Free s₀ s ∧ s₀.locks.heap.finalizedHash 1 = 6 := by
  have hrun : ((observed plainDeps plainConfig (twoVoters 7)).run ⟨start plainConfig (twoVoters 7), fun _ => .new⟩
      readAcrossExpiry).any fun s => decide ((s.reports 5).result = some (.ok acrossExpiry)) := by
    decide +kernel
  obtain ⟨s, hs, hend⟩ := (Option.any_eq_true _ _).mp hrun
  have hres := of_decide_eq_true hend
  have hreach : Lts.Reach (observed plainDeps plainConfig (twoVoters 7)) Lts.Free s :=
    .of_run (.init rfl) (fun _ _ _ => trivial) hs
  obtain ⟨s₀, -, hr₀, hl₀, -, hfin₀, -⟩ := statuses_snapshot hreach hres
  exact ⟨s, s₀, hres, hr₀, hl₀, hfin₀.symm⟩

end TeeProxy.Voting.Locks
