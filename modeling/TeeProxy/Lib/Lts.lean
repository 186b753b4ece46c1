/-
Transition systems given by a partial step function: a run takes events one
by one, each enabled where it is taken.

`Reach S ok` are the states reached from a start by steps that all meet a
side condition `ok`; `Reach S Free` are all reachable states. Every
invariant goes through `Reach.invariant` (one goal at the start, one per
step); what two states of one run have in common goes through
`Later.relation`; a more abstract system is reached through
`Reach.simulation`. A run is a list of events, so a particular run is
evaluated (`Reach.of_run`, `Reach.of_runIf`).
-/
import Mathlib.Logic.Relation

namespace Lts

/-- The states a system may start in, and what an event does where it is
enabled. -/
structure System (σ ε : Type) where
  init : σ → Prop
  step : σ → ε → Option σ

variable {σ ε : Type} {S : System σ ε} {ok ok' : σ → ε → Prop}

/-- No side condition. -/
def Free : σ → ε → Prop := fun _ _ => True

/-- The states reached from a start by steps that all meet `ok`. -/
inductive Reach (S : System σ ε) (ok : σ → ε → Prop) : σ → Prop
  | init {s} : S.init s → Reach S ok s
  | step {s e s'} : Reach S ok s → ok s e → S.step s e = some s' → Reach S ok s'

/-- `s'` comes after `s` in a run whose steps between them all meet `ok`. -/
inductive Later (S : System σ ε) (ok : σ → ε → Prop) (s : σ) : σ → Prop
  | refl : Later S ok s s
  | step {t e t'} : Later S ok s t → ok t e → S.step t e = some t' → Later S ok s t'

/-- A side condition that holds along the runs that meet another. -/
theorem Reach.mono (hok : ∀ s e, Reach S ok s → ok s e → ok' s e) {s} (h : Reach S ok s) : Reach S ok' s := by
  induction h with
  | init hi => exact .init hi
  | step hr he hs ih => exact .step ih (hok _ _ hr he) hs

theorem Reach.free {s} (h : Reach S ok s) : Reach S Free s := h.mono fun _ _ _ _ => trivial

/-- **The invariant rule.** The step may use that the state before it is
reached. -/
theorem Reach.invariant (I : σ → Prop) (init : ∀ s, S.init s → I s)
    (step : ∀ s e s', Reach S ok s → I s → ok s e → S.step s e = some s' → I s') {s}
    (h : Reach S ok s) : I s := by
  induction h with
  | init hi => exact init _ hi
  | step hr he hs ih => exact step _ _ _ hr ih he hs

theorem Reach.later {s t} (h : Reach S ok s) (hl : Later S ok s t) : Reach S ok t := by
  induction hl with
  | refl => exact h
  | step _ he hs ih => exact .step ih he hs

theorem Reach.origin {s} (h : Reach S ok s) : ∃ s₀, S.init s₀ ∧ Later S ok s₀ s := by
  induction h with
  | init hi => exact ⟨_, hi, .refl⟩
  | step _ he hs ih =>
    obtain ⟨s₀, hi, hl⟩ := ih
    exact ⟨s₀, hi, hl.step he hs⟩

/-- The two-state rule: what every step keeps between the state before and
the state after it, and chains, holds between any two states of a run. -/
theorem Later.relation (R : σ → σ → Prop) (refl : ∀ s, R s s) (trans : ∀ a b c, R a b → R b c → R a c)
    (step : ∀ s e s', Reach S ok s → ok s e → S.step s e = some s' → R s s') {s t}
    (hr : Reach S ok s) (h : Later S ok s t) : R s t := by
  induction h with
  | refl => exact refl s
  | step hl he hs ih => exact trans _ _ _ ih (step _ _ _ (hr.later hl) he hs)

/-- **The simulation rule.** Where every step of a run of `S` is, seen through
`abs`, a step of `A` or no step at all, what the run reaches is reached in
`A`. -/
theorem Reach.simulation {τ ζ : Type} {A : System τ ζ} {okA : τ → ζ → Prop} (abs : σ → τ)
    (init : ∀ s, S.init s → A.init (abs s))
    (step : ∀ s e s', Reach S ok s → Reach A okA (abs s) → ok s e → S.step s e = some s' →
      abs s' = abs s ∨ ∃ f, okA (abs s) f ∧ A.step (abs s) f = some (abs s')) {s}
    (h : Reach S ok s) : Reach A okA (abs s) := by
  induction h with
  | init hi => exact .init (init _ hi)
  | step hr he hs ih =>
    rcases step _ _ _ hr ih he hs with heq | ⟨f, hf, hA⟩
    · rw [heq]; exact ih
    · exact .step ih hf hA

/-- The state after the events, each enabled in turn. -/
def System.run (S : System σ ε) : σ → List ε → Option σ
  | s, [] => some s
  | s, e :: es => match S.step s e with
    | none => none
    | some s' => S.run s' es

theorem System.run_cons {s s' : σ} {e : ε} (h : S.step s e = some s') (es : List ε) :
    S.run s (e :: es) = S.run s' es := by
  simp only [System.run, h]

theorem System.run_cons_iff {s t : σ} {e : ε} {es : List ε} :
    S.run s (e :: es) = some t ↔ ∃ s', S.step s e = some s' ∧ S.run s' es = some t := by
  cases h : S.step s e <;> simp [System.run, h]

theorem Reach.of_run {s t : σ} (h : Reach S ok s) :
    ∀ {es : List ε}, (∀ e ∈ es, ∀ s, ok s e) → S.run s es = some t → Reach S ok t
  | [], _, hr => by simp only [System.run, Option.some.injEq] at hr; subst hr; exact h
  | e :: es, hok, hr => by
    simp only [System.run] at hr
    split at hr
    · cases hr
    · next hs =>
      exact Reach.of_run (.step h (hok e List.mem_cons_self _) hs) (fun e' he' => hok e' (List.mem_cons_of_mem _ he'))
        hr

theorem Later.of_run {s t : σ} : ∀ {es : List ε} {u : σ}, Later S ok s t → (∀ e ∈ es, ∀ s, ok s e) →
    S.run t es = some u → Later S ok s u := by
  intro es
  induction es generalizing t with
  | nil =>
    intro u h _ hr
    cases hr
    exact h
  | cons e es ih =>
    intro u h hok hr
    simp only [System.run] at hr
    split at hr
    · cases hr
    · next hs =>
      exact ih (.step h (hok e List.mem_cons_self _) hs) (fun e' he' => hok e' (List.mem_cons_of_mem _ he')) hr

/-- The state after the events, if each met the side condition where it was
taken. -/
def System.runIf (S : System σ ε) (ok : σ → ε → Prop) [∀ s e, Decidable (ok s e)] : σ → List ε → Option σ
  | s, [] => some s
  | s, e :: es =>
    if ok s e then match S.step s e with
      | none => none
      | some s' => S.runIf ok s' es
    else none

theorem System.runIf_cons [∀ s e, Decidable (ok s e)] {s s' : σ} {e : ε} (h : S.step s e = some s') (es : List ε) :
    S.runIf ok s (e :: es) = if ok s e then S.runIf ok s' es else none := by
  simp only [System.runIf, h]

theorem System.run_of_runIf [∀ s e, Decidable (ok s e)] {s t : σ} {es : List ε} (h : S.runIf ok s es = some t) :
    S.run s es = some t := by
  induction es generalizing s with
  | nil => exact h
  | cons e es ih =>
    simp only [System.runIf] at h
    split at h
    · split at h
      · cases h
      next hs => rw [System.run_cons hs]; exact ih h
    · cases h

theorem Reach.of_runIf [∀ s e, Decidable (ok s e)] {s t : σ} (h : Reach S ok s) :
    ∀ {es : List ε}, S.runIf ok s es = some t → Reach S ok t
  | [], hr => by simp only [System.runIf, Option.some.injEq] at hr; subst hr; exact h
  | e :: es, hr => by
    simp only [System.runIf] at hr
    split at hr
    next hok =>
      split at hr
      · cases hr
      · next hs => exact Reach.of_runIf (.step h hok hs) hr
    next => cases hr

/-! Threads of a system are often kept in a list, by number. -/

/-- What holds of the thread that moved and of every other one holds of all. -/
theorem forall_set {α : Type} {P : Nat → α → Prop} {l : List α} {n : Nat} {x : α} (hn : P n x)
    (hrest : ∀ m y, m ≠ n → l[m]? = some y → P m y) : ∀ m y, (l.set n x)[m]? = some y → P m y := by
  intro m y hm
  rw [List.getElem?_set] at hm
  split at hm
  next heq =>
    subst heq
    split at hm
    · cases hm; exact hn
    · cases hm
  next hne => exact hrest m y (Ne.symm hne) hm

theorem getElem?_snoc {α : Type} {l : List α} {x y : α} {k : Nat} :
    (l ++ [x])[k]? = some y ↔ l[k]? = some y ∨ k = l.length ∧ y = x := by
  rw [List.getElem?_append]
  split
  next hlt => exact (or_iff_left fun h => Nat.ne_of_lt hlt h.1).symm
  next hge =>
    rw [List.getElem?_eq_none (Nat.le_of_not_lt hge), List.getElem?_singleton]
    constructor
    · intro h
      split at h
      next hzero => exact .inr ⟨by omega, (Option.some.inj h).symm⟩
      next => cases h
    · rintro (h | ⟨rfl, rfl⟩)
      · cases h
      · rw [if_pos (Nat.sub_self _)]

/-- What holds of the threads and of a new one holds of all. -/
theorem forall_snoc {α : Type} {P : Nat → α → Prop} {l : List α} {x : α} (hnew : P l.length x)
    (hrest : ∀ m y, l[m]? = some y → P m y) : ∀ m y, (l ++ [x])[m]? = some y → P m y := by
  intro m y hm
  rcases getElem?_snoc.mp hm with hm | ⟨rfl, rfl⟩
  · exact hrest m y hm
  · exact hnew

end Lts
