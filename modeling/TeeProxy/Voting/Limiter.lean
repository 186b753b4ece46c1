/-
The limiter (`internal/service/instruction/voting/limiter`): per registered
voter, how many of its proposals have not finalised. `Increment` admits a
proposal below the cap, `Decrement` releases one; neither touches another
voter's count.
-/
import TeeProxy.Types

namespace TeeProxy

/-- The errors of the limiter. -/
inductive LimiterErr
  | cannotInitialize
  | limitReached
  deriving DecidableEq, Repr

/-- `limiter.State`. -/
structure LimiterState where
  pending : Nat
  totalProposed : Nat
  totalCompleted : Nat
  deriving DecidableEq, Repr

/-- `limiter.Limiter`. -/
structure Limiter where
  counter : GoMap Address LimiterState
  maxPendingRequests : Nat

namespace Limiter

/-- `limiter.New`. -/
def new (voters : List Address) (maxPendingRequests : Nat) : Limiter :=
  ⟨voters.foldl (fun c voter => c.set voter ⟨0, 0, 0⟩) ∅, maxPendingRequests⟩

def increment (l : Limiter) (address : Address) : Except LimiterErr Limiter :=
  match l.counter.get? address with
  | none => .error .cannotInitialize
  | some state =>
    if state.pending ≥ l.maxPendingRequests then .error .limitReached
    else
      let state' := { state with pending := state.pending + 1, totalProposed := state.totalProposed + 1 }
      .ok { l with counter := l.counter.set address state' }

def decrement (l : Limiter) (address : Address) : Limiter :=
  match l.counter.get? address with
  | none => l
  | some state =>
    let pending := if state.pending > 0 then state.pending - 1 else state.pending
    let state' := { state with pending, totalCompleted := state.totalCompleted + 1 }
    { l with counter := l.counter.set address state' }

/-- The pending count of an address, zero when it is not registered. -/
def pending (l : Limiter) (address : Address) : Nat :=
  ((l.counter.get? address).map LimiterState.pending).getD 0

/-- The addresses that may propose. -/
def registered (l : Limiter) (address : Address) : Prop := address ∈ l.counter.keys

variable {l l' : Limiter} {a b : Address}

/-! ## A fresh limiter -/

theorem foldl_counter (voters : List Address) (c : GoMap Address LimiterState) (a : Address) :
    (voters.foldl (fun c voter => c.set voter ⟨0, 0, 0⟩) c).get? a =
      if a ∈ voters then some ⟨0, 0, 0⟩ else c.get? a := by
  induction voters generalizing c with
  | nil => simp
  | cons v vs ih =>
    rw [List.foldl_cons, ih, GoMap.get?_set]
    by_cases h : a ∈ vs
    · simp [h]
    · by_cases hv : a = v <;> simp [h, hv]

theorem pending_new (voters : List Address) (n : Nat) (a : Address) : (Limiter.new voters n).pending a = 0 := by
  simp only [Limiter.pending, new, foldl_counter]
  split <;> simp

theorem registered_new {voters : List Address} {n : Nat} : (Limiter.new voters n).registered a ↔ a ∈ voters := by
  simp only [Limiter.registered, GoMap.mem_keys, new, foldl_counter]
  by_cases h : a ∈ voters <;> simp [h]

/-! ## Increment -/

/-- What an admission did: the address was registered, below the cap, and
its count alone went up by one. -/
structure Admitted (l : Limiter) (a : Address) (l' : Limiter) : Prop where
  registered : l.registered a
  below : l.pending a < l.maxPendingRequests
  cap : l'.maxPendingRequests = l.maxPendingRequests
  pending : ∀ b, l'.pending b = l.pending b + if b = a then 1 else 0
  keys : ∀ b, l'.registered b ↔ l.registered b

theorem increment_ok (h : l.increment a = .ok l') : Admitted l a l' := by
  unfold Limiter.increment at h
  split at h
  · cases h
  next state hs =>
  split at h
  · cases h
  next hlt =>
  simp only [Except.ok.injEq] at h
  subst h
  refine ⟨GoMap.mem_keys.mpr ⟨state, hs⟩, by simpa [Limiter.pending, hs] using hlt, rfl, fun b => ?_, fun b => ?_⟩
  · simp only [Limiter.pending, GoMap.get?_set]
    by_cases hb : b = a
    · subst hb; simp [hs]
    · simp [hb]
  · simp only [Limiter.registered, GoMap.mem_keys, GoMap.get?_set]
    by_cases hb : b = a
    · subst hb; simp [hs]
    · simp [hb]

theorem increment_of_below (hr : l.registered a) (hlt : l.pending a < l.maxPendingRequests) :
    ∃ l', l.increment a = .ok l' := by
  obtain ⟨state, hs⟩ := GoMap.mem_keys.mp hr
  have hp : state.pending < l.maxPendingRequests := by simpa [Limiter.pending, hs] using hlt
  unfold Limiter.increment
  rw [hs]
  exact ⟨_, if_neg (not_le.mpr hp)⟩

theorem counter_increment (h : l.increment a = .ok l') :
    ∃ c, l.counter.get? a = some c ∧ c.pending < l.maxPendingRequests ∧
      l'.maxPendingRequests = l.maxPendingRequests ∧ ∀ b, l'.counter.get? b =
        if b = a then some ⟨c.pending + 1, c.totalProposed + 1, c.totalCompleted⟩ else l.counter.get? b := by
  unfold Limiter.increment at h
  split at h
  · cases h
  next state hs =>
  split at h
  · cases h
  next hlt =>
  simp only [Except.ok.injEq] at h
  subst h
  exact ⟨state, hs, not_le.mp hlt, rfl, fun b => GoMap.get?_set _ _ b _⟩

/-! ## Decrement -/

theorem counter_decrement (l : Limiter) (a b : Address) :
    (l.decrement a).counter.get? b = if b = a then
      (l.counter.get? a).map fun c => ⟨c.pending - 1, c.totalProposed, c.totalCompleted + 1⟩ else l.counter.get? b := by
  unfold Limiter.decrement
  split
  next hn =>
    split
    next hb => rw [hb, hn]; rfl
    next => rfl
  next state hs =>
    have hp : (if state.pending > 0 then state.pending - 1 else state.pending) = state.pending - 1 := by
      split <;> omega
    rw [GoMap.get?_set, hs, hp]
    rfl

theorem pending_decrement (l : Limiter) (a b : Address) :
    (l.decrement a).pending b = l.pending b - if b = a then 1 else 0 := by
  unfold Limiter.decrement
  split
  next hn =>
    by_cases hb : b = a
    · subst hb; simp [Limiter.pending, hn]
    · simp [hb]
  next state hs =>
    simp only [Limiter.pending, GoMap.get?_set]
    by_cases hb : b = a
    · subst hb
      simp only [hs, ite_true, Option.map_some, Option.getD_some]
      split <;> omega
    · simp [hb]

@[simp] theorem cap_decrement (l : Limiter) (a : Address) :
    (l.decrement a).maxPendingRequests = l.maxPendingRequests := by
  unfold Limiter.decrement
  split <;> rfl

@[simp] theorem registered_decrement (l : Limiter) (a b : Address) :
    (l.decrement a).registered b ↔ l.registered b := by
  unfold Limiter.decrement
  split
  · rfl
  next state hs =>
    simp only [Limiter.registered, GoMap.mem_keys, GoMap.get?_set]
    by_cases hb : b = a
    · subst hb; simp [hs]
    · simp [hb]

/-- Releasing a slot right after it was reserved leaves every count as it was. -/
theorem Admitted.pending_release (h : Admitted l a l') (b : Address) :
    (l'.decrement a).pending b = l.pending b := by
  rw [pending_decrement, h.pending b]
  split <;> omega

end Limiter

end TeeProxy
