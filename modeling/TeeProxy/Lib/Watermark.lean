/-
High-water marks: the largest value recorded so far, the bottom value before
the first. A mark is raised by taking the maximum, so values may be recorded
in any order and more than once.
-/
import Mathlib.Order.BoundedOrder.Basic
import Mathlib.Order.MinMax
import Mathlib.Tactic.Common

section Marks

variable {α : Type} [LinearOrder α] [OrderBot α] {P P' : α → Prop} {m n : α}

/-- `m` is the largest value with `P`, the bottom value if there is none. -/
structure Watermark (P : α → Prop) (m : α) : Prop where
  le : ∀ x, P x → x ≤ m
  attained : m = ⊥ ∨ P m

namespace Watermark

theorem bot (h : ∀ x, ¬ P x) : Watermark P ⊥ := ⟨fun x hx => absurd hx (h x), .inl rfl⟩

theorem raise (h : Watermark P m) (hP : ∀ x, P' x ↔ P x ∨ x = n) : Watermark P' (max m n) := by
  refine ⟨fun x hx => ?_, ?_⟩
  · rcases (hP x).mp hx with hx | rfl
    · exact (h.le x hx).trans (le_max_left m n)
    · exact le_max_right m x
  · rcases max_choice m n with heq | heq
    · rw [heq]
      exact h.attained.imp_right fun hm => (hP m).mpr (.inl hm)
    · rw [heq]
      exact .inr ((hP n).mpr (.inr rfl))

theorem keep (h : Watermark P m) (hnew : ∀ x, P' x → P x ∨ x ≤ m) (hold : ∀ x, P x → P' x) : Watermark P' m := by
  refine ⟨fun x hx => ?_, h.attained.imp_right (hold m)⟩
  rcases hnew x hx with hx | hle
  · exact h.le x hx
  · exact hle

theorem congr (h : Watermark P m) (hP : ∀ x, P' x ↔ P x) : Watermark P' m :=
  h.keep (fun x hx => .inl ((hP x).mp hx)) fun x hx => (hP x).mpr hx

/-- The mark of what was recorded on the way is that of what it led to, if
nothing recorded is above all of it and every value of it was recorded. -/
theorem transfer (h : Watermark P m) (hbelow : ∀ x, P x → ∃ y, P' y ∧ x ≤ y) (hseen : ∀ y, P' y → y = ⊥ ∨ P y) :
    Watermark P' m := by
  have hle : ∀ y, P' y → y ≤ m := fun y hy => by
    rcases hseen y hy with rfl | hy
    · exact bot_le
    · exact h.le y hy
  refine ⟨hle, h.attained.imp_right fun hm => ?_⟩
  obtain ⟨y, hy, hmy⟩ := hbelow m hm
  rwa [le_antisymm hmy (hle y hy)]

end Watermark

end Marks
