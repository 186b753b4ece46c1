/-
Hash chains: a digest that takes one numbered entry after the other. Whoever
holds the entries can recompute the digest, and with it every digest that
was handed out on the way (`Linked`): the receipt of an entry is the digest
of the entries up to it.
-/
import Mathlib.Data.List.Basic

namespace HashChain

variable {δ ε : Type} {next : δ → Nat → ε → δ} {h : δ} {es : List ε}

/-- The digest of the entries, numbered from zero. -/
def digest (next : δ → Nat → ε → δ) (h : δ) (es : List ε) : δ :=
  es.zipIdx.foldl (fun h e => next h e.2 e.1) h

theorem digest_concat (es : List ε) (e : ε) :
    digest next h (es ++ [e]) = next (digest next h es) es.length e := by
  simp [digest, List.zipIdx_append]

/-- The receipts of the entries: each has its number and the digest up to it. -/
structure Linked (next : δ → Nat → ε → δ) (h : δ) (es : List ε) (receipts : List (Nat × δ)) : Prop where
  length : receipts.length = es.length
  digest : ∀ j r, receipts[j]? = some r → r = (j, HashChain.digest next h (es.take (j + 1)))

theorem Linked.nil : Linked next h [] [] := ⟨rfl, fun j r hr => by cases hr⟩

theorem Linked.concat {receipts : List (Nat × δ)} (hl : Linked next h es receipts) (e : ε) :
    Linked next h (es ++ [e]) (receipts ++ [(es.length, next (HashChain.digest next h es) es.length e)]) := by
  refine ⟨by simp [hl.length], fun j r hr => ?_⟩
  rw [List.getElem?_append] at hr
  split at hr
  next hj =>
    rw [hl.length] at hj
    rw [List.take_append_of_le_length (by omega)]
    exact hl.digest j r hr
  next hj =>
    rw [hl.length] at hj hr
    obtain ⟨hlt, rfl⟩ := List.getElem?_eq_some_iff.mp hr
    obtain rfl : j = es.length := by rw [List.length_singleton] at hlt; omega
    rw [List.take_of_length_le (by simp), digest_concat]
    simp

end HashChain
