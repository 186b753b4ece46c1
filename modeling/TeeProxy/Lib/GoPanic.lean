/-
Go calls that can panic. A call returns a value, returns an error, or panics;
a read through a nil pointer panics, and so does a slice out of range.

An outcome is an `Except` with two kinds of failure, so the rules for chains
of fallible computations are those of `Except`.
-/
import TeeProxy.Lib.Fallible

namespace GoPanic

/-- How a call can fail. -/
inductive Fault (ε : Type)
  | err (e : ε)
  | panicked
  deriving DecidableEq, Repr

variable {ε ε' α : Type}

/-- A failure whose error is wrapped. -/
def Fault.map (f : ε → ε') : Fault ε → Fault ε'
  | .err e => .err (f e)
  | .panicked => .panicked

/-- A call that returns, with a value or an error. -/
def returns (x : Except ε α) : Except (Fault ε) α := x.mapError .err

/-- A read through a pointer. -/
def deref (p : Option α) : Except (Fault ε) α :=
  match p with
  | none => .error .panicked
  | some a => .ok a

/-- The slice `xs[n:]`. -/
def sliceFrom (n : Nat) (xs : List α) : Except (Fault ε) (List α) :=
  if n ≤ xs.length then .ok (xs.drop n) else .error .panicked

/-- A deferred `recover` that returns an error. -/
def recovered (e : ε) (x : Except (Fault ε) α) : Except ε α :=
  x.mapError fun
    | .err e' => e'
    | .panicked => e

theorem returns_ne_panicked {x : Except ε α} : returns x ≠ .error .panicked := by
  unfold returns
  rw [ne_eq, Except.mapError_error_iff]
  rintro ⟨e, -, he⟩
  cases he

theorem returns_ok_iff {x : Except ε α} {a : α} : returns x = .ok a ↔ x = .ok a := Except.mapError_ok_iff

theorem deref_panicked_iff {p : Option α} : (deref p : Except (Fault ε) α) = .error .panicked ↔ p = none := by
  cases p <;> simp [deref]

end GoPanic
