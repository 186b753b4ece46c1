/-
Scanning lists: loops that can be left early, sorted lists read one window
after another, first appearances, and lists cut into batches.

A pass of a loop either goes on with a new state or leaves with a result, and
a loop over a list stops at the first pass that leaves. A loop over two lists
in a row is the loop over their concatenation, so a scan cut into pieces is
one scan; windows of a sorted list that meet are one window.
-/
import Mathlib.Tactic.Common
import Mathlib.Data.List.Forall2
import Mathlib.Data.List.Induction

namespace Scan

variable {σ ρ α β : Type}

/-! ## Loops -/

/-- What a pass of a loop comes to. -/
inductive Flow (σ ρ : Type)
  | next (s : σ)
  | leave (r : ρ)
  deriving DecidableEq, Repr

/-- What a loop was left with. -/
def Flow.result? : Flow σ ρ → Option ρ
  | .next _ => none
  | .leave r => some r

theorem Flow.result?_eq_some {x : Flow σ ρ} {r : ρ} : x.result? = some r ↔ x = .leave r := by
  cases x <;> simp [result?]

theorem Flow.result?_eq_none {x : Flow σ ρ} : x.result? = none ↔ ∃ s, x = .next s := by
  cases x <;> simp [result?]

/-- What comes after a pass, unless the pass has left the loop. -/
def Flow.andThen (x : Flow σ ρ) (f : σ → Flow σ ρ) : Flow σ ρ :=
  match x with
  | .next s => f s
  | .leave r => .leave r

@[simp] theorem Flow.andThen_next (s : σ) (f : σ → Flow σ ρ) : (Flow.next s).andThen f = f s := rfl

@[simp] theorem Flow.andThen_leave (r : ρ) (f : σ → Flow σ ρ) : (Flow.leave r).andThen f = .leave r := rfl

/-- A loop over a list. -/
def loop (body : σ → α → Flow σ ρ) : σ → List α → Flow σ ρ
  | s, [] => .next s
  | s, a :: as => (body s a).andThen fun s' => loop body s' as

section Loops

variable {body : σ → α → Flow σ ρ} {s s' : σ} {r : ρ} {xs ys : List α} {a : α}

/-- **Pieces.** A loop over one list and then another is the loop over both. -/
theorem loop_append : loop body s (xs ++ ys) = (loop body s xs).andThen fun s' => loop body s' ys := by
  induction xs generalizing s with
  | nil => rfl
  | cons a xs ih =>
    simp only [List.cons_append, loop]
    cases body s a with
    | next s' => exact ih
    | leave r => rfl

theorem loop_snoc : loop body s (xs ++ [a]) = (loop body s xs).andThen fun s' => body s' a := by
  rw [loop_append]
  cases loop body s xs with
  | next s' => simp only [Flow.andThen_next, loop]; cases body s' a <;> rfl
  | leave r => rfl

theorem loop_leave_append (h : loop body s xs = .leave r) : loop body s (xs ++ ys) = .leave r := by
  rw [loop_append, h, Flow.andThen_leave]

theorem loop_skip (h : ∀ s', loop body s xs = .next s' → body s' a = .next s') :
    loop body s (xs ++ a :: ys) = loop body s (xs ++ ys) := by
  rw [loop_append, loop_append]
  cases hx : loop body s xs with
  | next s' => simp only [Flow.andThen_next, loop, h s' hx]
  | leave r => rfl

/-- **Invariants.** What holds at the start and is kept by every pass that
goes on, in terms of what has been consumed, holds wherever the loop is. -/
theorem loop_inv {P : List α → σ → Prop} (h0 : P [] s)
    (hstep : ∀ xs a t t', P xs t → body t a = .next t' → P (xs ++ [a]) t') :
    ∀ {xs s'}, loop body s xs = .next s' → P xs s' := by
  intro xs
  induction xs using List.reverseRecOn with
  | nil => intro s' h; cases h; exact h0
  | append_singleton xs a ih =>
    intro s' h
    rw [loop_snoc] at h
    cases hx : loop body s xs with
    | next t => rw [hx] at h; exact hstep xs a t s' (ih hx) h
    | leave r => rw [hx] at h; cases h

theorem exists_of_loop_leave (h : loop body s xs = .leave r) :
    ∃ before a after t, xs = before ++ a :: after ∧ loop body s before = .next t ∧ body t a = .leave r := by
  induction xs generalizing s with
  | nil => cases h
  | cons a xs ih =>
    rw [loop] at h
    cases ha : body s a with
    | next t =>
      rw [ha] at h
      obtain ⟨before, b, after, u, rfl, hb, hu⟩ := ih h
      exact ⟨a :: before, b, after, u, rfl, by rw [loop, ha, Flow.andThen_next, hb], hu⟩
    | leave r' =>
      rw [ha] at h
      cases h
      exact ⟨[], a, xs, s, rfl, rfl, ha⟩

theorem forall₂_snoc_left {R : α → β → Prop} {zs : List β} (h : List.Forall₂ R (xs ++ [a]) zs) :
    ∃ zs' b, zs = zs' ++ [b] ∧ List.Forall₂ R xs zs' ∧ R a b := by
  rw [← List.forall₂_reverse_iff, List.reverse_append, List.reverse_singleton, List.singleton_append,
    List.forall₂_cons_left_iff] at h
  obtain ⟨b, rest, hab, hrest, heq⟩ := h
  refine ⟨rest.reverse, b, ?_, ?_, hab⟩
  · rw [← List.reverse_cons, ← heq, List.reverse_reverse]
  · rw [← List.forall₂_reverse_iff, List.reverse_reverse]
    exact hrest

end Loops

/-! ## Windows -/

/-- The elements whose key is above `a` and at most `b`. -/
def window (key : α → Int) (a b : Int) (xs : List α) : List α :=
  xs.filter fun x => a < key x ∧ key x ≤ b

section Windows

variable {key : α → Int} {a b c : Int} {xs : List α}

theorem window_eq_nil (h : ∀ x ∈ xs, a < key x → b < key x) : window key a b xs = [] := by
  refine List.filter_eq_nil_iff.mpr fun x hx => ?_
  rw [decide_eq_true_iff]
  exact fun hk => Int.not_lt.mpr hk.2 (h x hx hk.1)

theorem window_filter_congr {ys : List α} {q : α → Bool}
    (h : (xs.filter fun x => key x ≤ b) = ys.filter fun x => key x ≤ b) :
    window key a b (xs.filter q) = window key a b (ys.filter q) := by
  have hsplit : ∀ zs : List α, window key a b (zs.filter q) =
      (zs.filter fun x => key x ≤ b).filter fun x => q x && a < key x := fun zs => by
    rw [window, List.filter_filter, List.filter_filter]
    refine List.filter_congr fun x _ => ?_
    rw [Bool.decide_and, Bool.and_comm _ (q x), Bool.and_assoc]
  rw [hsplit, hsplit, h]

/-- **Windows that meet.** In a sorted list, two windows that meet make one. -/
theorem window_append (hs : xs.Pairwise fun x y => key x ≤ key y) (hab : a ≤ b) (hbc : b ≤ c) :
    window key a b xs ++ window key b c xs = window key a c xs := by
  induction xs with
  | nil => rfl
  | cons x xs ih =>
    obtain ⟨hx, hs⟩ := List.pairwise_cons.mp hs
    rcases Int.lt_or_le b (key x) with hxb | hxb
    · -- `x` is above the first window, and so is all that follows
      have habove : ∀ y ∈ x :: xs, b < key y := fun y hy => by
        rcases List.mem_cons.mp hy with rfl | hy
        · exact hxb
        · exact Int.lt_of_lt_of_le hxb (hx y hy)
      rw [window_eq_nil fun y hy _ => habove y hy, List.nil_append]
      refine List.filter_congr fun y hy => ?_
      have := habove y hy
      simp only [this, Int.lt_of_le_of_lt hab this, true_and]
    · -- `x` is not in the second window, and in the first exactly if it is in the one of both
      have hb : ¬ (b < key x ∧ key x ≤ c) := fun h => Int.not_lt.mpr hxb h.1
      have hc : (a < key x ∧ key x ≤ b) ↔ (a < key x ∧ key x ≤ c) :=
        and_congr_right fun _ => ⟨fun _ => Int.le_trans hxb hbc, fun _ => hxb⟩
      unfold window at ih ⊢
      simp only [List.filter_cons, hb, hc, decide_false]
      split
      · rw [List.cons_append]; exact congrArg _ (ih hs)
      · exact ih hs

end Windows

/-- An element with at most `k` elements before or beside it is among the
first `k`. -/
theorem mem_take_of_countP_le {r : α → α → Prop} [DecidableRel r] {xs : List α} {a : α} {k : Nat}
    (hsorted : xs.Pairwise r) (hrefl : r a a) (ha : a ∈ xs) (hcount : xs.countP (fun x => decide (r x a)) ≤ k) :
    a ∈ xs.take k := by
  by_contra hnot
  rw [← List.take_append_drop k xs] at hsorted hcount ha
  have hdrop : a ∈ xs.drop k := (List.mem_append.mp ha).resolve_left hnot
  -- everything in front of `a` counts, and so does `a`
  have hfront : (xs.take k).countP (fun x => decide (r x a)) = (xs.take k).length :=
    List.countP_eq_length.mpr fun x hx => decide_eq_true ((List.pairwise_append.mp hsorted).2.2 x hx a hdrop)
  have hself : 0 < (xs.drop k).countP (fun x => decide (r x a)) :=
    List.countP_pos_iff.mpr ⟨a, hdrop, decide_eq_true hrefl⟩
  have hlong := List.length_pos_of_mem hdrop
  rw [List.length_drop] at hlong
  rw [List.countP_append, hfront, List.length_take] at hcount
  omega

/-! ## First appearances -/

/-- The elements whose key has no element before it, in order. -/
def firsts [DecidableEq β] (key : α → β) (xs : List α) : List α :=
  (xs.zipIdx.filter fun p => key p.1 ∉ (xs.take p.2).map key).map Prod.fst

section Firsts

variable [DecidableEq β] {key : α → β} {xs ys : List α} {a : α}

theorem firsts_concat :
    firsts key (xs ++ [a]) = if key a ∈ xs.map key then firsts key xs else firsts key xs ++ [a] := by
  -- what an element has before it does not change
  have hold : (xs.zipIdx.filter fun p => key p.1 ∉ ((xs ++ [a]).take p.2).map key) =
      xs.zipIdx.filter fun p => key p.1 ∉ (xs.take p.2).map key := by
    refine List.filter_congr fun p hp => ?_
    have hlt : p.2 < xs.length + 0 := List.snd_lt_of_mem_zipIdx hp
    rw [List.take_append_of_le_length (Nat.le_of_lt hlt)]
  unfold firsts
  rw [List.zipIdx_append, List.filter_append, List.map_append, hold, Nat.zero_add, List.zipIdx_singleton]
  split
  next hmem => simp [hmem]
  next hmem => simp [hmem]

theorem mem_of_mem_firsts (h : a ∈ firsts key xs) : a ∈ xs := by
  obtain ⟨p, hp, rfl⟩ := List.mem_map.mp h
  exact List.fst_mem_of_mem_zipIdx (List.mem_of_mem_filter hp)

theorem mem_map_firsts {k : β} : k ∈ (firsts key xs).map key ↔ k ∈ xs.map key := by
  induction xs using List.reverseRecOn with
  | nil => rfl
  | append_singleton xs a ih =>
    rw [firsts_concat, List.map_append, List.mem_append]
    split
    next hmem =>
      rw [ih]
      refine ⟨.inl, fun h => h.elim id fun h => ?_⟩
      rwa [List.mem_singleton.mp h]
    next => rw [List.map_append, List.mem_append, ih]

theorem nodup_map_firsts : ((firsts key xs).map key).Nodup := by
  induction xs using List.reverseRecOn with
  | nil => exact .nil
  | append_singleton xs a ih =>
    rw [firsts_concat]
    split
    · exact ih
    next hmem =>
      rw [List.map_append, List.map_singleton]
      refine List.nodup_append.mpr ⟨ih, List.pairwise_singleton _ _, fun k hk k' hk' heq => hmem ?_⟩
      rw [List.mem_singleton.mp hk'] at heq
      exact mem_map_firsts.mp (heq ▸ hk)

/-- An element whose key has come before can be left out. -/
theorem firsts_skip (h : key a ∈ xs.map key) : firsts key (xs ++ a :: ys) = firsts key (xs ++ ys) := by
  induction ys using List.reverseRecOn with
  | nil => rw [firsts_concat, if_pos h, List.append_nil]
  | append_singleton ys b ih =>
    have hmem : key b ∈ (xs ++ a :: ys).map key ↔ key b ∈ (xs ++ ys).map key := by
      simp only [List.map_append, List.map_cons, List.mem_append, List.mem_cons]
      refine ⟨fun hb => ?_, fun hb => hb.imp id .inr⟩
      rcases hb with hb | hb | hb
      · exact .inl hb
      · exact .inl (hb ▸ h)
      · exact .inr hb
    rw [← List.cons_append, ← List.append_assoc, ← List.append_assoc, firsts_concat, firsts_concat, ih]
    simp only [hmem]

end Firsts

/-! ## Batches -/

section Batches

variable {n : Nat}

/-- The chunker with a chunk begun (`acc`) and the chunks before it (`done`). -/
theorem flatten_toChunks_go : ∀ (xs : List α) (acc : Array α) (done : Array (List α)),
    (List.toChunks.go n xs acc done).flatten = done.toList.flatten ++ acc.toList ++ xs
  | [], acc, done => by simp [List.toChunks.go]
  | x :: xs, acc, done => by
    unfold List.toChunks.go
    split
    · rw [flatten_toChunks_go xs]; simp
    · rw [flatten_toChunks_go xs]; simp

theorem flatten_toChunks (xs : List α) : (xs.toChunks (n + 1)).flatten = xs := by
  cases xs with
  | nil => rfl
  | cons x xs => simp [List.toChunks, flatten_toChunks_go]

theorem length_le_of_mem_toChunks_go {ys : List α} : ∀ (xs : List α) (acc : Array α) (done : Array (List α)),
    0 < n → acc.size ≤ n → (∀ zs ∈ done.toList, zs.length ≤ n) → ys ∈ List.toChunks.go n xs acc done → ys.length ≤ n
  | [], acc, done, _, hacc, hdone, h => by
    simp only [List.toChunks.go, Array.toList_push, List.mem_append, List.mem_singleton] at h
    rcases h with h | rfl
    · exact hdone ys h
    · simpa using hacc
  | x :: xs, acc, done, hn, hacc, hdone, h => by
    unfold List.toChunks.go at h
    split at h
    next =>
      refine length_le_of_mem_toChunks_go xs _ _ hn (by simpa using Nat.succ_le_of_lt hn) (fun zs hzs => ?_) h
      simp only [Array.toList_push, List.mem_append, List.mem_singleton] at hzs
      rcases hzs with hzs | rfl
      · exact hdone zs hzs
      · simpa using hacc
    next hne =>
      have hlt : acc.size < n := Nat.lt_of_le_of_ne hacc (by simpa using hne)
      exact length_le_of_mem_toChunks_go xs _ _ hn (by simpa using Nat.succ_le_of_lt hlt) hdone h

theorem length_le_of_mem_toChunks {xs ys : List α} (h : ys ∈ xs.toChunks (n + 1)) : ys.length ≤ n + 1 := by
  cases xs with
  | nil => cases h
  | cons x xs => exact length_le_of_mem_toChunks_go xs #[x] #[] (Nat.succ_pos n) (by simp) (by simp) h

end Batches

end Scan
