/-
A queue that hands each value out until it is committed or given up.

A value enters and waits. Taking it off the queue and fetching it are two
steps, and the fetch can miss. A fetched value is in flight until it is
committed, given up, or put back to be taken next, at most `max` times in
all. Every value that entered is held in exactly one place (`conserved`);
when no value enters twice, each place knows how often it was handed out
(`attempts`). If one value at a time is taken off the queue, values are done
with in the order in which they entered (`fifo`).
-/
import TeeProxy.Lib.Lts
import Mathlib.Data.List.Nodup
import Mathlib.Data.List.Perm.Basic
import Mathlib.Tactic.Common

namespace Redelivery

/-- The values in each place, those not yet done with the number of attempts
spent on them; what entered, and what was handed out, in order. -/
structure State (α : Type) where
  waiting : List (α × Nat)
  fetching : List (α × Nat)
  inFlight : List (α × Nat)
  committed : List α
  givenUp : List α
  missed : List α
  entered : List α
  handed : List α

/-- A value enters, is taken, fetched or missed, and committed, put back or
given up. -/
inductive Event (α : Type)
  | enter (a : α)
  | take
  | fetch (n : Nat)
  | miss (n : Nat)
  | commit (n : Nat)
  | giveUp (n : Nat)
  | putBack (n : Nat)

variable {α : Type}

/-- Values enter at the head of the queue, and are taken and put back at its
end. -/
def step (max : Nat) (s : State α) : Event α → Option (State α)
  | .enter a => some { s with waiting := (a, 0) :: s.waiting, entered := s.entered ++ [a] }
  | .take => s.waiting.getLast?.map fun x =>
      { s with waiting := s.waiting.dropLast, fetching := s.fetching ++ [x] }
  | .fetch n => s.fetching[n]?.map fun x =>
      { s with fetching := s.fetching.eraseIdx n, inFlight := s.inFlight ++ [x], handed := s.handed ++ [x.1] }
  | .miss n => s.fetching[n]?.map fun x =>
      { s with fetching := s.fetching.eraseIdx n, missed := s.missed ++ [x.1] }
  | .commit n => s.inFlight[n]?.map fun x =>
      { s with inFlight := s.inFlight.eraseIdx n, committed := s.committed ++ [x.1] }
  | .giveUp n => s.inFlight[n]?.map fun x =>
      { s with inFlight := s.inFlight.eraseIdx n, givenUp := s.givenUp ++ [x.1] }
  | .putBack n => s.inFlight[n]?.bind fun x =>
      if x.2 + 1 < max then
        some { s with inFlight := s.inFlight.eraseIdx n, waiting := s.waiting ++ [(x.1, x.2 + 1)] }
      else none

/-- A queue that redelivers up to `max` times. -/
def system (α : Type) (max : Nat) : Lts.System (State α) (Event α) where
  init s := s = ⟨[], [], [], [], [], [], [], []⟩
  step := step max

/-- Everything a step can do. -/
inductive Step (max : Nat) (s : State α) : Event α → State α → Prop
  | enter {a} : Step max s (.enter a) { s with waiting := (a, 0) :: s.waiting, entered := s.entered ++ [a] }
  | take {l x} : s.waiting = l ++ [x] →
      Step max s .take { s with waiting := l, fetching := s.fetching ++ [x] }
  | fetch {n x} : s.fetching[n]? = some x →
      Step max s (.fetch n) { s with
        fetching := s.fetching.eraseIdx n, inFlight := s.inFlight ++ [x], handed := s.handed ++ [x.1] }
  | miss {n x} : s.fetching[n]? = some x →
      Step max s (.miss n) { s with fetching := s.fetching.eraseIdx n, missed := s.missed ++ [x.1] }
  | commit {n x} : s.inFlight[n]? = some x →
      Step max s (.commit n) { s with inFlight := s.inFlight.eraseIdx n, committed := s.committed ++ [x.1] }
  | giveUp {n x} : s.inFlight[n]? = some x →
      Step max s (.giveUp n) { s with inFlight := s.inFlight.eraseIdx n, givenUp := s.givenUp ++ [x.1] }
  | putBack {n x} : s.inFlight[n]? = some x → x.2 + 1 < max →
      Step max s (.putBack n) { s with
        inFlight := s.inFlight.eraseIdx n, waiting := s.waiting ++ [(x.1, x.2 + 1)] }

theorem step_iff {max : Nat} {s s' : State α} {e : Event α} : step max s e = some s' ↔ Step max s e s' := by
  constructor
  · intro h
    cases e with
    | enter a => cases h; exact .enter
    | take =>
      simp only [step, Option.map_eq_some_iff] at h
      obtain ⟨x, hx, rfl⟩ := h
      exact .take (List.dropLast_append_getLast? x hx).symm
    | fetch n => simp only [step, Option.map_eq_some_iff] at h; obtain ⟨x, hx, rfl⟩ := h; exact .fetch hx
    | miss n => simp only [step, Option.map_eq_some_iff] at h; obtain ⟨x, hx, rfl⟩ := h; exact .miss hx
    | commit n => simp only [step, Option.map_eq_some_iff] at h; obtain ⟨x, hx, rfl⟩ := h; exact .commit hx
    | giveUp n => simp only [step, Option.map_eq_some_iff] at h; obtain ⟨x, hx, rfl⟩ := h; exact .giveUp hx
    | putBack n =>
      simp only [step, Option.bind_eq_some_iff] at h
      obtain ⟨x, hx, h⟩ := h
      split at h
      next hlt => cases h; exact .putBack hx hlt
      next => cases h
  · rintro (_ | h | h | h | h | h | ⟨h, hlt⟩)
    · rfl
    · simp [step, h]
    · simp [step, h]
    · simp [step, h]
    · simp [step, h]
    · simp [step, h]
    · simp [step, h, hlt]

/-! ## One place each -/

/-- The values in all the places together. -/
def State.held (s : State α) : List α :=
  s.waiting.map Prod.fst ++ s.fetching.map Prod.fst ++ s.inFlight.map Prod.fst ++
    s.committed ++ s.givenUp ++ s.missed

/-- No value enters twice. -/
def Once (s : State α) (e : Event α) : Prop := ∀ a, e = .enter a → a ∉ s.entered

theorem nodup_entered {max : Nat} {s : State α} (h : Lts.Reach (system α max) Once s) : s.entered.Nodup := by
  refine h.invariant (fun s => s.entered.Nodup) ?_ ?_
  · rintro s rfl; exact List.nodup_nil
  · intro s e s' _ ih he hs
    cases step_iff.mp hs with
    | enter => exact (List.nodup_append_comm.mp (List.nodup_cons.mpr ⟨he _ rfl, ih⟩))
    | take | fetch | miss | commit | giveUp | putBack => exact ih

section

variable [DecidableEq α] {max : Nat} {ok : State α → Event α → Prop}

theorem count_map_eraseIdx {β : Type} {l : List β} {n : Nat} {x : β} (h : l[n]? = some x) (f : β → α) (a : α) :
    (l.map f).count a = ((l.eraseIdx n).map f).count a + if f x = a then 1 else 0 := by
  obtain ⟨hn, rfl⟩ := List.getElem?_eq_some_iff.mp h
  have hp := (List.getElem_cons_eraseIdx_perm hn).map f
  rw [← hp.count_eq a, List.map_cons, List.count_cons]
  simp only [beq_iff_eq]

/-- **Every value that entered is held once for each time it did.** -/
theorem conserved {s : State α} (h : Lts.Reach (system α max) ok s) : s.held.Perm s.entered := by
  refine h.invariant (fun s => s.held.Perm s.entered) ?_ ?_
  · rintro s rfl; exact .refl _
  · intro s e s' _ ih _ hs
    rw [List.perm_iff_count] at ih ⊢
    intro a
    have hi := ih a
    simp only [State.held, List.count_append] at hi ⊢
    cases step_iff.mp hs with
    | enter =>
      simp only [List.map_cons, List.count_append, List.count_cons, List.count_nil]
      omega
    | take hw =>
      simp only [hw, List.map_append, List.count_append] at hi ⊢
      omega
    | fetch hx | miss hx | commit hx | giveUp hx | putBack hx =>
      have hc := count_map_eraseIdx hx Prod.fst a
      simp only [List.map_append, List.map_cons, List.map_nil, List.count_append, List.count_cons, List.count_nil,
        beq_iff_eq] at hi ⊢
      omega

/-! ## Attempts -/

/-- How often a value was handed out, by its place. -/
structure Attempts (max : Nat) (s : State α) : Prop where
  waiting : ∀ x ∈ s.waiting, s.handed.count x.1 = x.2 ∧ x.2 < max
  fetching : ∀ x ∈ s.fetching, s.handed.count x.1 = x.2 ∧ x.2 < max
  inFlight : ∀ x ∈ s.inFlight, s.handed.count x.1 = x.2 + 1 ∧ x.2 < max
  handed : ∀ a, s.handed.count a ≤ max
  entered : ∀ a ∈ s.handed, a ∈ s.entered

theorem fetching_alone {s : State α} (hn : s.entered.Nodup) (hc : s.held.Perm s.entered) {n : Nat} {x : α × Nat}
    (hx : s.fetching[n]? = some x) :
    ∀ y, y ∈ s.waiting ∨ y ∈ s.fetching.eraseIdx n ∨ y ∈ s.inFlight → x.1 ≠ y.1 := by
  intro y hy heq
  have hle := List.nodup_iff_count_le_one.mp (hc.nodup_iff.mpr hn) y.1
  have hcx := count_map_eraseIdx hx Prod.fst y.1
  have pos : ∀ {l : List (α × Nat)}, y ∈ l → 0 < (l.map Prod.fst).count y.1 := fun h =>
    List.count_pos_iff.mpr (List.mem_map_of_mem h)
  simp only [State.held, List.count_append, hcx, if_pos heq] at hle
  rcases hy with hy | hy | hy
  all_goals
    have := pos hy
    omega

/-- **Each place knows how often its values were handed out**, and nothing is
handed out more than `max` times. -/
theorem attempts (hmax : 0 < max) {s : State α} (h : Lts.Reach (system α max) Once s) : Attempts max s := by
  refine h.invariant (Attempts max) ?_ ?_
  · rintro s rfl
    exact ⟨by simp, by simp, by simp, by simp, by simp⟩
  · intro s e s' hr ih he hs
    cases step_iff.mp hs with
    | @enter a =>
      have hz : s.handed.count a = 0 := List.count_eq_zero.mpr fun ha => he a rfl (ih.entered a ha)
      refine { ih with waiting := ?_, entered := fun b hb => List.mem_append_left _ (ih.entered b hb) }
      intro x hx
      rcases List.mem_cons.mp hx with rfl | hx
      · exact ⟨hz, hmax⟩
      · exact ih.waiting x hx
    | take hw =>
      refine { ih with waiting := fun x hx => ih.waiting x (hw ▸ List.mem_append_left _ hx), fetching := ?_ }
      intro x hx
      rcases List.mem_append.mp hx with hx | hx
      · exact ih.fetching x hx
      · exact ih.waiting x (hw ▸ List.mem_append_right _ hx)
    | @fetch n x hx =>
      have hlone := fetching_alone (nodup_entered hr) (conserved hr) hx
      have hxf := ih.fetching x (List.mem_of_getElem? hx)
      have hsame : ∀ b, x.1 ≠ b → (s.handed ++ [x.1]).count b = s.handed.count b := by
        intro b hb
        rw [List.count_append, List.count_singleton, if_neg (by simpa using hb), Nat.add_zero]
      have hmore : (s.handed ++ [x.1]).count x.1 = x.2 + 1 := by
        rw [List.count_append, List.count_singleton_self, hxf.1]
      refine ⟨fun y hy => ?_, fun y hy => ?_, fun y hy => ?_, fun b => ?_, fun b hb => ?_⟩
      · rw [hsame _ (hlone y (.inl hy))]; exact ih.waiting y hy
      · rw [hsame _ (hlone y (.inr (.inl hy)))]; exact ih.fetching y (List.mem_of_mem_eraseIdx hy)
      · rcases List.mem_append.mp hy with hy | hy
        · rw [hsame _ (hlone y (.inr (.inr hy)))]; exact ih.inFlight y hy
        · cases List.mem_singleton.mp hy; exact ⟨hmore, hxf.2⟩
      · by_cases hb : x.1 = b
        · subst hb; rw [hmore]; exact hxf.2
        · rw [hsame b hb]; exact ih.handed b
      · rcases List.mem_append.mp hb with hb | hb
        · exact ih.entered b hb
        · cases List.mem_singleton.mp hb
          refine (conserved hr).subset ?_
          simp only [State.held, List.mem_append, List.mem_map]
          exact .inl (.inl (.inl (.inl (.inr ⟨x, List.mem_of_getElem? hx, rfl⟩))))
    | miss => exact { ih with fetching := fun x hx => ih.fetching x (List.mem_of_mem_eraseIdx hx) }
    | commit | giveUp => exact { ih with inFlight := fun x hx => ih.inFlight x (List.mem_of_mem_eraseIdx hx) }
    | @putBack n x hx hlt =>
      refine { ih with waiting := ?_, inFlight := fun x hx => ih.inFlight x (List.mem_of_mem_eraseIdx hx) }
      intro y hy
      rcases List.mem_append.mp hy with hy | hy
      · exact ih.waiting y hy
      · cases List.mem_singleton.mp hy
        exact ⟨(ih.inFlight x (List.mem_of_getElem? hx)).1, hlt⟩

/-! ## Giving up -/

/-- A value is given up only when its attempts are spent. -/
def Spent (max : Nat) (s : State α) (e : Event α) : Prop :=
  ∀ n x, e = .giveUp n → s.inFlight[n]? = some x → max ≤ x.2 + 1

theorem fetching_not_givenUp {s : State α} (hn : s.entered.Nodup) (hc : s.held.Perm s.entered) {n : Nat} {x : α × Nat}
    (hx : s.fetching[n]? = some x) {a : α} (ha : a ∈ s.givenUp) : x.1 ≠ a := by
  rintro rfl
  have hle := List.nodup_iff_count_le_one.mp (hc.nodup_iff.mpr hn) x.1
  have hfetching : 0 < (s.fetching.map Prod.fst).count x.1 :=
    List.count_pos_iff.mpr (List.mem_map_of_mem (List.mem_of_getElem? hx))
  have hgiven : 0 < s.givenUp.count x.1 := List.count_pos_iff.mpr ha
  simp only [State.held, List.count_append] at hle
  omega

/-- **What is given up was handed out `max` times.** -/
theorem givenUp_spent (hmax : 0 < max) {s : State α}
    (h : Lts.Reach (system α max) (fun s e => Once s e ∧ Spent max s e) s) :
    ∀ a ∈ s.givenUp, s.handed.count a = max := by
  refine h.invariant (fun s => ∀ a ∈ s.givenUp, s.handed.count a = max) ?_ ?_
  · rintro s rfl a ha; cases ha
  · intro s e s' hr ih he hs a ha
    have honce : Lts.Reach (system α max) Once s := hr.mono fun _ _ _ h => h.1
    cases step_iff.mp hs with
    | enter | take | miss | commit | putBack => exact ih a ha
    | fetch hx =>
      have hne := fetching_not_givenUp (nodup_entered honce) (conserved honce) hx ha
      rw [List.count_append, List.count_singleton, if_neg (by simpa using hne), Nat.add_zero]
      exact ih a ha
    | giveUp hx =>
      rcases List.mem_append.mp ha with ha | ha
      · exact ih a ha
      · cases List.mem_singleton.mp ha
        obtain ⟨hcount, hlt⟩ := (attempts hmax honce).inFlight _ (List.mem_of_getElem? hx)
        exact hcount.trans (Nat.le_antisymm hlt (he.2 _ _ rfl hx))

end

/-! ## Order -/

section Order

variable {max : Nat}

/-- One value at a time is taken off the queue, and none is missed. -/
def InTurn (s : State α) : Event α → Prop
  | .take => s.fetching = [] ∧ s.inFlight = []
  | .miss _ => False
  | _ => True

/-- What is done with came first, then the value that is out, then those that
wait, the next one at the end of the queue. -/
structure Fifo (s : State α) (settled : List α) : Prop where
  entered : s.entered = settled ++ (s.fetching ++ s.inFlight).map Prod.fst ++ (s.waiting.map Prod.fst).reverse
  alone : s.fetching.length + s.inFlight.length ≤ 1
  committed : s.committed.Sublist settled
  settled : settled.Perm (s.committed ++ s.givenUp)

theorem eq_singleton_of_alone {β γ : Type} {l : List β} {l' : List γ} {n : Nat} {x : β}
    (h : l.length + l'.length ≤ 1) (hx : l[n]? = some x) : l = [x] ∧ n = 0 ∧ l' = [] := by
  cases l with
  | nil => cases hx
  | cons y l =>
    rw [List.length_cons] at h
    have hl : l = [] := List.eq_nil_of_length_eq_zero (by omega)
    have hl' : l' = [] := List.eq_nil_of_length_eq_zero (by omega)
    subst hl hl'
    cases n with
    | zero => exact ⟨congrArg (fun z => [z]) (Option.some.inj hx), rfl, rfl⟩
    | succ n => cases hx

/-- **First in, first out.** -/
theorem fifo {s : State α} (h : Lts.Reach (system α max) InTurn s) : ∃ settled, Fifo s settled := by
  refine h.invariant (fun s => ∃ settled, Fifo s settled) ?_ ?_
  · rintro s rfl
    exact ⟨[], rfl, by simp, .refl _, .refl _⟩
  · rintro s e s' _ ⟨settled, ih⟩ he hs
    have hswap : s.inFlight.length + s.fetching.length ≤ 1 := by rw [Nat.add_comm]; exact ih.alone
    cases step_iff.mp hs with
    | @enter a =>
      refine ⟨settled, ?_, ih.alone, ih.committed, ih.settled⟩
      simp [ih.entered]
    | @take l x hw =>
      obtain ⟨hf, hi⟩ := he
      refine ⟨settled, ?_, by simp [hf, hi], ih.committed, ih.settled⟩
      simp [ih.entered, hf, hi, hw]
    | @fetch n x hx =>
      obtain ⟨hf, rfl, hi⟩ := eq_singleton_of_alone ih.alone hx
      refine ⟨settled, ?_, by simp [hf, hi], ih.committed, ih.settled⟩
      simp [ih.entered, hf, hi]
    | miss => exact he.elim
    | @commit n x hx =>
      obtain ⟨hi, rfl, hf⟩ := eq_singleton_of_alone hswap hx
      refine ⟨settled ++ [x.1], ?_, by simp [hf, hi], ih.committed.append (.refl _), ?_⟩
      · simp [ih.entered, hf, hi]
      · refine (ih.settled.append_right [x.1]).trans ?_
        have hswap : (s.givenUp ++ [x.1]).Perm ([x.1] ++ s.givenUp) := List.perm_append_comm
        simpa using hswap.append_left s.committed
    | @giveUp n x hx =>
      obtain ⟨hi, rfl, hf⟩ := eq_singleton_of_alone hswap hx
      refine ⟨settled ++ [x.1], ?_, by simp [hf, hi], ih.committed.trans (List.sublist_append_left _ _), ?_⟩
      · simp [ih.entered, hf, hi]
      · simpa using ih.settled.append_right [x.1]
    | @putBack n x hx hlt =>
      obtain ⟨hi, rfl, hf⟩ := eq_singleton_of_alone hswap hx
      refine ⟨settled, ?_, by simp [hf, hi], ih.committed, ih.settled⟩
      simp [ih.entered, hf, hi]

theorem Fifo.committed_sublist {s : State α} {settled : List α} (h : Fifo s settled) :
    s.committed.Sublist s.entered := by
  rw [h.entered, List.append_assoc]
  exact h.committed.trans (List.sublist_append_left _ _)

theorem Fifo.before_committed {s : State α} {settled : List α} (h : Fifo s settled) (hn : s.entered.Nodup) {a : α}
    (ha : a ∈ s.committed) {pre post : List α} (hpre : s.entered = pre ++ a :: post) :
    ∀ b ∈ pre, b ∈ s.committed ∨ b ∈ s.givenUp := by
  intro b hb
  obtain ⟨before, after, hsettled⟩ := List.append_of_mem (h.committed.subset ha)
  have honce : a ∉ pre ∧ a ∉ post := by
    rw [hpre, List.nodup_middle, List.nodup_cons, List.mem_append, not_or] at hn
    exact hn.1
  -- a value entered once, so what came before it is the same list in both
  have heq : s.entered = before ++ a :: (after ++ (s.fetching ++ s.inFlight).map Prod.fst ++
      (s.waiting.map Prod.fst).reverse) := by
    rw [h.entered, hsettled]
    simp
  obtain rfl : pre = before :=
    ((List.append_cons_inj_of_notMem honce.1 honce.2).mp (hpre.symm.trans heq)).1
  have hmem : b ∈ settled := hsettled ▸ List.mem_append_left _ hb
  exact List.mem_append.mp (h.settled.subset hmem)

end Order

end Redelivery
