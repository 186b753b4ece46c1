/-
Read-write locks as Go's `sync.RWMutex` has them, for any number of threads
and locks.

A thread shows its `Stance`: the locks it holds, and the lock it has
announced a write on. A writer first announces itself, which needs that no
other writer holds or has announced the lock, and enters when the readers
are gone; from the announcement on no new reader gets in. A reader gets the
lock when no writer holds or has announced it.

`Exclusive` is what the locks guarantee, and `Exclusive.set` the one rule by
which a change of one thread's stance keeps it. `no_deadlock` is the
lock-order argument: where every holder that waits waits for a lock of
higher rank, not all threads are stuck.
-/
import Mathlib.Data.List.Basic

namespace RwMutex

inductive Mode
  | read | write
  deriving DecidableEq, Repr

/-- The locks a goroutine holds, and the one it has announced that it will
write. -/
structure Stance (L : Type) where
  held : List (L × Mode)
  announced : Option L

variable {L : Type}

namespace Stance

/-- Nothing held, nothing announced. -/
def idle : Stance L := ⟨[], none⟩

/-- The lock is held in some mode. -/
def holds (st : Stance L) (l : L) : Prop := (l, .read) ∈ st.held ∨ (l, .write) ∈ st.held

/-- A writer that has the lock or waits for it. -/
def writes (st : Stance L) (l : L) : Prop := (l, .write) ∈ st.held ∨ st.announced = some l

instance [DecidableEq L] (st : Stance L) (l : L) : Decidable (st.holds l) :=
  inferInstanceAs (Decidable ((l, .read) ∈ st.held ∨ (l, .write) ∈ st.held))

instance [DecidableEq L] (st : Stance L) (l : L) : Decidable (st.writes l) :=
  inferInstanceAs (Decidable ((l, .write) ∈ st.held ∨ st.announced = some l))

theorem holds_of_mem {st : Stance L} {l : L} {m : Mode} (h : (l, m) ∈ st.held) : st.holds l := by
  cases m with
  | read => exact .inl h
  | write => exact .inr h

theorem not_holds_idle (l : L) : ¬ (idle : Stance L).holds l := by
  simp [idle, holds]

end Stance

/-- No thread holds or has announced a write on the lock: a reader gets it,
and a writer may announce itself. -/
def Unclaimed (stances : List (Stance L)) (l : L) : Prop := ∀ st ∈ stances, ¬ st.writes l

/-- No thread holds the lock: an announced writer gets it. -/
def Unheld (stances : List (Stance L)) (l : L) : Prop := ∀ st ∈ stances, ¬ st.holds l

instance [DecidableEq L] (stances : List (Stance L)) (l : L) : Decidable (Unclaimed stances l) :=
  inferInstanceAs (Decidable (∀ st ∈ stances, ¬ st.writes l))

instance [DecidableEq L] (stances : List (Stance L)) (l : L) : Decidable (Unheld stances l) :=
  inferInstanceAs (Decidable (∀ st ∈ stances, ¬ st.holds l))

variable {stances : List (Stance L)} {n : Nat} {st st' : Stance L} {l : L}

/-! ## Exclusion -/

/-- A lock held by a writer is held by no other thread. -/
def Exclusive (stances : List (Stance L)) : Prop :=
  ∀ (n m : Nat) (st st' : Stance L) (l : L), stances[n]? = some st → stances[m]? = some st' → (l, .write) ∈ st.held →
    st'.holds l → n = m

/-- A lock is new to the thread only if it was free for its mode. -/
def Acquires (stances : List (Stance L)) (st st' : Stance L) : Prop :=
  ∀ l mode, (l, mode) ∈ st'.held → (l, mode) ∈ st.held ∨
    match mode with
    | .read => Unclaimed stances l
    | .write => Unheld stances l

theorem Acquires.keep (h : ∀ x ∈ st'.held, x ∈ st.held) : Acquires stances st st' :=
  fun _ _ hmem => .inl (h _ hmem)

theorem Acquires.read (hfree : Unclaimed stances l) (h : ∀ x ∈ st'.held, x ∈ st.held ∨ x = (l, .read)) :
    Acquires stances st st' := by
  intro l' mode hmem
  rcases h _ hmem with hold | heq
  · exact .inl hold
  · cases heq
    exact .inr hfree

theorem Acquires.write (hfree : Unheld stances l) (h : ∀ x ∈ st'.held, x ∈ st.held ∨ x = (l, .write)) :
    Acquires stances st st' := by
  intro l' mode hmem
  rcases h _ hmem with hold | heq
  · exact .inl hold
  · cases heq
    exact .inr hfree

theorem Exclusive.nil : Exclusive ([] : List (Stance L)) := by
  intro n m st st' l hn
  cases hn

/-- **The rule for a change of one thread.** -/
theorem Exclusive.set (h : Exclusive stances) (hn : stances[n]? = some st) (ha : Acquires stances st st') :
    Exclusive (stances.set n st') := by
  intro i j a b l hi hj hw hh
  rw [List.getElem?_set] at hi hj
  have hlt : n < stances.length := (List.getElem?_eq_some_iff.mp hn).1
  by_cases hni : n = i
  · by_cases hnj : n = j
    · omega
    · rw [if_pos hni, if_pos hlt, Option.some.injEq] at hi
      rw [if_neg hnj] at hj
      subst hi
      rcases ha l .write hw with hold | hfree
      · exact absurd (h n j st b l hn hj hold hh) hnj
      · exact absurd hh (hfree b (List.mem_of_getElem? hj))
  · rw [if_neg hni] at hi
    by_cases hnj : n = j
    · rw [if_pos hnj, if_pos hlt, Option.some.injEq] at hj
      subst hj
      -- the other thread is the writer
      have hold : st.holds l → i = j := fun hs => (h i n a st l hi hn hw hs).trans hnj
      rcases hh with hr | hw'
      · rcases ha l .read hr with hr | hfree
        · exact hold (.inl hr)
        · exact absurd (.inl hw) (hfree a (List.mem_of_getElem? hi))
      · rcases ha l .write hw' with hw' | hfree
        · exact hold (.inr hw')
        · exact absurd (.inr hw) (hfree a (List.mem_of_getElem? hi))
    · rw [if_neg hnj] at hj
      exact h i j a b l hi hj hw hh

theorem Exclusive.spawn (h : Exclusive stances) (hst : st.held = []) : Exclusive (stances ++ [st]) := by
  have hlast : ∀ {k : Nat} {a : Stance L}, (stances ++ [st])[k]? = some a → stances[k]? = some a ∨ a = st := by
    intro k a hk
    rw [List.getElem?_append] at hk
    split at hk
    · exact .inl hk
    · exact .inr (List.mem_singleton.mp (List.mem_of_getElem? hk))
  intro i j a b l hi hj hw hh
  rcases hlast hi with hi | rfl
  · rcases hlast hj with hj | rfl
    · exact h i j a b l hi hj hw hh
    · simp [Stance.holds, hst] at hh
  · simp [hst] at hw

/-! ## Lock order -/

/-- **No deadlock.** `waits` gives the lock a stuck thread waits for. A stuck
thread is kept out by a holder, or, unless it has announced itself, by an
announced writer; a thread that holds a lock is stuck at one of higher rank,
and an announced writer is stuck at its lock. Then no thread is stuck. -/
theorem no_deadlock (rank : L → Nat) (top : Nat) (hrank : ∀ l, rank l ≤ top) (waits : Nat → Option L)
    (hblocked : ∀ i l, waits i = some l →
      (∃ (j : Nat) (st : Stance L), stances[j]? = some st ∧ st.holds l) ∨
      (∃ (j : Nat) (st : Stance L), stances[j]? = some st ∧ st.announced = some l) ∧
        ∀ st : Stance L, stances[i]? = some st → st.announced ≠ some l)
    (hheld : ∀ (j : Nat) (st : Stance L) (l : L), stances[j]? = some st → st.holds l →
      ∃ l', waits j = some l' ∧ rank l < rank l')
    (hannounced : ∀ (j : Nat) (st : Stance L) (l : L), stances[j]? = some st → st.announced = some l →
      waits j = some l) :
    ∀ i, waits i = none := by
  -- a stuck thread leads to one that is stuck higher up
  have hup : ∀ i l, waits i = some l → ∃ j l', waits j = some l' ∧ rank l < rank l' := by
    intro i l hi
    rcases hblocked i l hi with ⟨j, st, hj, hh⟩ | ⟨⟨j, st, hj, ha⟩, -⟩
    · obtain ⟨l', hl', hlt⟩ := hheld j st l hj hh
      exact ⟨j, l', hl', hlt⟩
    · rcases hblocked j l (hannounced j st l hj ha) with ⟨k, st', hk, hh⟩ | ⟨-, hno⟩
      · obtain ⟨l', hl', hlt⟩ := hheld k st' l hk hh
        exact ⟨k, l', hl', hlt⟩
      · exact absurd ha (hno st hj)
  have hnone : ∀ k i l, waits i = some l → top < rank l + k → False := by
    intro k
    induction k with
    | zero =>
      intro i l _ hlt
      have := hrank l
      omega
    | succ k ih =>
      intro i l hi hlt
      obtain ⟨j, l', hj, hl'⟩ := hup i l hi
      exact ih j l' hj (by omega)
  intro i
  cases hi : waits i with
  | none => rfl
  | some l => exact absurd (by omega) (hnone (top + 1) i l hi)

end RwMutex
