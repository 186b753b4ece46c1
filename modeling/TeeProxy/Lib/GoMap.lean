/-
Go's maps, as Mathlib's association lists with distinct keys. Iteration
order means nothing in Go, so two maps are the same when they answer every
lookup alike; what a loop over a map accumulates is a sum over its entries
(`sumBy`), which an assignment changes at its own key only.
-/
import Mathlib.Data.List.AList
import Mathlib.Algebra.GroupWithZero.Nat
import Mathlib.Algebra.Order.BigOperators.Group.List
import Mathlib.Tactic.Common

/-- `map[κ]α`. -/
def GoMap (κ α : Type) : Type := AList (fun _ : κ => α)

namespace GoMap

variable {κ α : Type}

instance : EmptyCollection (GoMap κ α) := ⟨(∅ : AList fun _ : κ => α)⟩

/-- The keys, each once. -/
def keys (m : GoMap κ α) : List κ := AList.keys m

/-- The values, one per key. -/
def values (m : GoMap κ α) : List α := m.entries.map (·.2)

/-- `len(m)`. -/
def size (m : GoMap κ α) : Nat := m.keys.length

/-- The sum over the entries of a map. -/
def sumBy (f : κ → α → Nat) (m : GoMap κ α) : Nat := (m.entries.map fun e => f e.1 e.2).sum

theorem nodup_keys (m : GoMap κ α) : m.keys.Nodup := AList.keys_nodup m

@[simp] theorem values_empty : (∅ : GoMap κ α).values = [] := rfl
@[simp] theorem size_empty : (∅ : GoMap κ α).size = 0 := rfl

theorem sumBy_key (f : κ → Nat) (m : GoMap κ α) : sumBy (fun k _ => f k) m = (m.keys.map f).sum := by
  change _ = ((m.entries.map Sigma.fst).map f).sum
  rw [List.map_map]; rfl

variable [DecidableEq κ]

/-- `v, ok := m[k]`. -/
def get? (m : GoMap κ α) (k : κ) : Option α := AList.lookup k m

/-- `m[k] = v`. -/
def set (m : GoMap κ α) (k : κ) (v : α) : GoMap κ α := AList.insert k v m

/-- `delete(m, k)`. -/
def delete (m : GoMap κ α) (k : κ) : GoMap κ α := AList.erase k m

@[simp] theorem get?_empty (k : κ) : (∅ : GoMap κ α).get? k = none := rfl

theorem get?_set (m : GoMap κ α) (k k' : κ) (v : α) :
    (m.set k v).get? k' = if k' = k then some v else m.get? k' := by
  by_cases h : k' = k
  · subst h; rw [if_pos rfl]; exact AList.lookup_insert m
  · rw [if_neg h]; exact AList.lookup_insert_ne h

@[simp] theorem get?_set_self (m : GoMap κ α) (k : κ) (v : α) : (m.set k v).get? k = some v := by
  rw [get?_set, if_pos rfl]

theorem get?_set_ne (m : GoMap κ α) {k k' : κ} (h : k' ≠ k) (v : α) : (m.set k v).get? k' = m.get? k' := by
  rw [get?_set, if_neg h]

theorem get?_delete (m : GoMap κ α) (k k' : κ) :
    (m.delete k).get? k' = if k' = k then none else m.get? k' := by
  by_cases h : k' = k
  · subst h; rw [if_pos rfl]; exact AList.lookup_erase k' m
  · rw [if_neg h]; exact AList.lookup_erase_ne h

theorem mem_keys {m : GoMap κ α} {k : κ} : k ∈ m.keys ↔ ∃ v, m.get? k = some v := by
  rw [← Option.isSome_iff_exists]
  exact AList.lookup_isSome.symm

theorem not_mem_keys {m : GoMap κ α} {k : κ} : k ∉ m.keys ↔ m.get? k = none := AList.lookup_eq_none.symm

theorem mem_entries {m : GoMap κ α} {k : κ} {v : α} : ⟨k, v⟩ ∈ m.entries ↔ m.get? k = some v :=
  AList.mem_lookup_iff.symm

/-- The entries in the order of assignment, newest first. -/
theorem mem_values {m : GoMap κ α} {v : α} : v ∈ m.values ↔ ∃ k, m.get? k = some v := by
  simp only [values, List.mem_map]
  constructor
  · rintro ⟨⟨k, w⟩, hmem, rfl⟩
    exact ⟨k, mem_entries.mp hmem⟩
  · rintro ⟨k, hk⟩
    exact ⟨⟨k, v⟩, mem_entries.mpr hk, rfl⟩

theorem entries_set_new {m : GoMap κ α} {k : κ} (h : m.get? k = none) (v : α) :
    (m.set k v).entries = ⟨k, v⟩ :: m.entries :=
  AList.entries_insert_of_notMem (AList.lookup_eq_none.mp h)

theorem keys_set_new {m : GoMap κ α} {k : κ} (h : m.get? k = none) (v : α) :
    (m.set k v).keys = k :: m.keys := by
  change List.keys (m.set k v).entries = k :: List.keys m.entries
  rw [entries_set_new h v, List.keys_cons]

theorem values_set_new {m : GoMap κ α} {k : κ} (h : m.get? k = none) (v : α) :
    (m.set k v).values = v :: m.values := by
  rw [values, entries_set_new h v]; rfl

theorem size_set_new {m : GoMap κ α} {k : κ} (h : m.get? k = none) (v : α) :
    (m.set k v).size = m.size + 1 := by
  rw [size, keys_set_new h v]; rfl

theorem size_set_le (m : GoMap κ α) (k : κ) (v : α) : (m.set k v).size ≤ m.size + 1 := by
  have hk : (m.set k v).keys = k :: m.keys.erase k := AList.keys_insert m
  have := List.length_erase_le (a := k) (l := m.keys)
  rw [size, size, hk, List.length_cons]
  omega

theorem sumBy_set_new {m : GoMap κ α} {k : κ} (h : m.get? k = none) (f : κ → α → Nat) (v : α) :
    sumBy f (m.set k v) = f k v + sumBy f m := by
  rw [sumBy, entries_set_new h v]; rfl

/-- Assigning to a present key moves a sum by the difference at that key. -/
theorem sumBy_set_of_get? {m : GoMap κ α} {k : κ} {w : α} (h : m.get? k = some w) (f : κ → α → Nat) (v : α) :
    sumBy f (m.set k v) + f k w = f k v + sumBy f m := by
  obtain ⟨w', l₁, l₂, -, hl, he⟩ := List.exists_of_kerase (mem_keys.mpr ⟨w, h⟩ : k ∈ m.keys)
  have hw : w' = w := by
    have : m.get? k = some w' := mem_entries.mp (by rw [hl]; simp)
    rw [h] at this; exact (Option.some.inj this).symm
  subst hw
  have hs : (m.set k v).entries = ⟨k, v⟩ :: (l₁ ++ l₂) := by rw [← he]; rfl
  simp only [sumBy, hs, hl, List.map_cons, List.map_append, List.sum_cons, List.sum_append]
  omega

/-- The same with a default that counts nothing where the key is absent. -/
theorem sumBy_set_getD {f : κ → α → Nat} {k : κ} {d : α} (hd : f k d = 0) (m : GoMap κ α) (v : α) :
    sumBy f (m.set k v) + f k ((m.get? k).getD d) = f k v + sumBy f m := by
  cases h : m.get? k with
  | none => rw [sumBy_set_new h, Option.getD_none, hd, Nat.add_zero]
  | some w => exact sumBy_set_of_get? h f v

theorem sumBy_congr {m : GoMap κ α} {f g : κ → α → Nat} (h : ∀ k v, m.get? k = some v → f k v = g k v) :
    sumBy f m = sumBy g m := by
  unfold sumBy
  congr 1
  exact List.map_congr_left fun e he => h e.1 e.2 (mem_entries.mp he)

end GoMap
