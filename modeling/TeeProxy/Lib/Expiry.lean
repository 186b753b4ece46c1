/-
Maps whose entries may expire, and stores that keep such a map lazily: what
has expired is removed from the store at some time or never, and what has not
is there. A lookup through a lazy store is a lookup in the map.
-/
import Mathlib.Order.Basic
import Mathlib.Order.Lattice
import Mathlib.Logic.Function.Basic
import Mathlib.Tactic.Common

namespace Expiry

/-- A value and when it expires, if it does. -/
structure Entry (α τ : Type) where
  value : α
  expiresAt : Option τ
  deriving DecidableEq, Repr

variable {κ α τ : Type} [LinearOrder τ]

/-- It is not past the entry's expiry. -/
def Entry.Live (e : Entry α τ) (now : τ) : Prop := ∀ t ∈ e.expiresAt, now ≤ t

instance (e : Entry α τ) (now : τ) : Decidable (e.Live now) :=
  inferInstanceAs (Decidable (∀ t ∈ e.expiresAt, now ≤ t))

theorem Entry.Live.earlier {e : Entry α τ} {now now' : τ} (h : e.Live now') (hle : now ≤ now') : e.Live now :=
  fun t ht => hle.trans (h t ht)

/-- The value under a key, unless it has expired. -/
def get (m : κ → Option (Entry α τ)) (now : τ) (k : κ) : Option α :=
  (m k).bind fun e => if e.Live now then some e.value else none

/-- `o` has the entries of `m`, but for some that have expired. -/
def Lazy (now : τ) (m o : κ → Option (Entry α τ)) : Prop :=
  ∀ k, o k = m k ∨ o k = none ∧ ∀ e, m k = some e → ¬ e.Live now

namespace Lazy

variable {now now' : τ} {m o : κ → Option (Entry α τ)}

theorem refl (m : κ → Option (Entry α τ)) : Lazy now m m := fun _ => .inl rfl

/-- **Lookups agree.** -/
theorem get_eq (h : Lazy now m o) (k : κ) : get o now k = get m now k := by
  rcases h k with heq | ⟨hnone, hdead⟩
  · rw [get, get, heq]
  · rw [get, get, hnone]
    cases hm : m k with
    | none => rfl
    | some e => exact (if_neg (hdead e hm)).symm

theorem later (h : Lazy now m o) (hle : now ≤ now') : Lazy now' m o := fun k =>
  (h k).imp id fun ⟨hnone, hdead⟩ => ⟨hnone, fun e he hlive => hdead e he (hlive.earlier hle)⟩

theorem trans {p : κ → Option (Entry α τ)} (h : Lazy now m o) (h' : Lazy now o p) : Lazy now m p := by
  intro k
  rcases h k, h' k with ⟨heq | ⟨hnone, hdead⟩, heq' | ⟨hnone', hdead'⟩⟩
  · exact .inl (heq'.trans heq)
  · exact .inr ⟨hnone', fun e he => hdead' e (heq.trans he)⟩
  · exact .inr ⟨heq'.trans hnone, hdead⟩
  · exact .inr ⟨hnone', hdead⟩

variable [DecidableEq κ]

theorem update (h : Lazy now m o) (k : κ) (e : Option (Entry α τ)) :
    Lazy now (Function.update m k e) (Function.update o k e) := by
  intro k'
  by_cases hk : k' = k
  · subst hk
    exact .inl (by rw [Function.update_self, Function.update_self])
  · rw [Function.update_of_ne hk, Function.update_of_ne hk]
    exact h k'

theorem expire (h : Lazy now m o) {k : κ} (hdead : ∀ e, o k = some e → ¬ e.Live now) :
    Lazy now m (Function.update o k none) := by
  intro k'
  by_cases hk : k' = k
  · subst hk
    refine .inr ⟨Function.update_self _ _ _, fun e he => ?_⟩
    rcases h k' with heq | ⟨-, hd⟩
    · exact hdead e (heq.trans he)
    · exact hd e he
  · rw [Function.update_of_ne hk]
    exact h k'

end Lazy

end Expiry
