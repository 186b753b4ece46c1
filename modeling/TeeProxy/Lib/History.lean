/-
Sequential histories: calls that are run one after the other on an object
given by a partial function `exec`.

`Sequential exec s l s'` says that the calls listed in `l`, each listed
once, take the object from `s` to `s'` and answer as `l` says. A concurrent
system is compared with such a history by adding an entry where a call
takes effect (`Sequential.snoc`).
-/
import Mathlib.Data.List.Nodup

namespace History

variable {σ ω ρ : Type}

/-- A call by its number, what it does and what it answers. -/
structure Item (ω ρ : Type) where
  call : Nat
  op : ω
  res : ρ

/-- The operations in turn, and their answers. -/
def run (exec : σ → ω → Option (σ × ρ)) : σ → List ω → Option (σ × List ρ)
  | s, [] => some (s, [])
  | s, op :: ops => match exec s op with
    | none => none
    | some (s', r) => match run exec s' ops with
      | none => none
      | some (s'', rs) => some (s'', r :: rs)

/-- The items, one for each call, are a run from `s` to `s'`. -/
structure Sequential (exec : σ → ω → Option (σ × ρ)) (s : σ) (l : List (Item ω ρ)) (s' : σ) : Prop where
  run : run exec s (l.map Item.op) = some (s', l.map Item.res)
  once : (l.map Item.call).Nodup

variable {exec : σ → ω → Option (σ × ρ)} {s s' s'' : σ} {l : List (Item ω ρ)} {op : ω} {r : ρ} {n : Nat}

theorem run_snoc (h : exec s' op = some (s'', r)) :
    ∀ {ops : List ω} {rs : List ρ} {s : σ}, run exec s ops = some (s', rs) →
      run exec s (ops ++ [op]) = some (s'', rs ++ [r]) := by
  intro ops
  induction ops with
  | nil =>
    intro rs s hs
    simp only [run, Option.some.injEq, Prod.mk.injEq] at hs
    obtain ⟨rfl, rfl⟩ := hs
    simp [run, h]
  | cons o ops ih =>
    intro rs s hs
    simp only [run] at hs
    split at hs
    · cases hs
    next s₁ r₁ hexec =>
    split at hs
    · cases hs
    next s₂ rs₂ hrun =>
    simp only [Option.some.injEq, Prod.mk.injEq] at hs
    obtain ⟨rfl, rfl⟩ := hs
    simp [run, hexec, ih hrun]

theorem Sequential.nil : Sequential exec s [] s := ⟨rfl, List.nodup_nil⟩

theorem Sequential.snoc (h : Sequential exec s l s') (hn : n ∉ l.map Item.call) (hexec : exec s' op = some (s'', r)) :
    Sequential exec s (l ++ [⟨n, op, r⟩]) s'' := by
  refine ⟨?_, ?_⟩
  · rw [List.map_append, List.map_append]
    exact run_snoc hexec h.run
  · rw [List.map_append]
    exact h.once.append (List.nodup_singleton n) (List.disjoint_singleton.mpr hn)

end History
