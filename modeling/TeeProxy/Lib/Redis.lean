/-
A store of values and lists under string keys, and the commands of Redis that
move them. Every command takes whether it succeeds; one that fails has no
effect. Values are byte strings, written and read through a codec.

A list element carries a tag next to its bytes. The tag is history only: no
command's outcome depends on it.
-/
import TeeProxy.Lib.GoMap

/-- A serialization: what it writes it reads back. -/
structure Codec (α : Type) where
  marshal : α → Except String (List UInt8)
  unmarshal : List UInt8 → Except String α
  unmarshal_marshal : ∀ a b, marshal a = .ok b → unmarshal b = .ok a

/-- The positions of a list of values, as one byte. -/
def Codec.ofTable {α : Type} [DecidableEq α] (table : List α) : Codec α where
  marshal a :=
    let i := table.idxOf a
    if i < table.length ∧ i < 256 then .ok [UInt8.ofNat i] else .error "not in the table"
  unmarshal
    | [i] => match table[i.toNat]? with
      | some a => .ok a
      | none => .error "no such position"
    | _ => .error "not one byte"
  unmarshal_marshal a b h := by
    dsimp only at h
    split at h
    next hi =>
      cases h
      have hn : (UInt8.ofNat (table.idxOf a)).toNat = table.idxOf a := by
        rw [UInt8.toNat_ofNat', Nat.mod_eq_of_lt hi.2]
      simp only [hn, List.getElem?_eq_getElem hi.1, List.getElem_idxOf]
    next => cases h

/-- The string values and the lists of a Redis; an element of a list carries a
ghost. -/
structure Redis (γ : Type) where
  values : GoMap String (List UInt8)
  lists : GoMap String (List (List UInt8 × γ))

namespace Redis

variable {γ : Type}

def empty : Redis γ := ⟨∅, ∅⟩

/-- A list that is not there is empty. -/
def list (r : Redis γ) (name : String) : List (List UInt8 × γ) := (r.lists.get? name).getD []

def setList (r : Redis γ) (name : String) (l : List (List UInt8 × γ)) : Redis γ :=
  { r with lists := r.lists.set name l }

def set (ok : Bool) (key : String) (data : List UInt8) (r : Redis γ) : Option (Redis γ) :=
  if ok then some { r with values := r.values.set key data } else none

def del (ok : Bool) (key : String) (r : Redis γ) : Option (Redis γ) :=
  if ok then some { r with values := r.values.delete key } else none

def get (ok : Bool) (key : String) (r : Redis γ) : Option (Option (List UInt8)) :=
  if ok then some (r.values.get? key) else none

/-- Push on the left. -/
def lPush (ok : Bool) (name : String) (data : List UInt8) (tag : γ) (r : Redis γ) : Option (Redis γ) :=
  if ok then some (r.setList name ((data, tag) :: r.list name)) else none

/-- Push on the right. -/
def rPush (ok : Bool) (name : String) (data : List UInt8) (tag : γ) (r : Redis γ) : Option (Redis γ) :=
  if ok then some (r.setList name (r.list name ++ [(data, tag)])) else none

/-- Pop from the right; the popped element is `none` when the list is empty. -/
def rPop (ok : Bool) (name : String) (r : Redis γ) : Option (Redis γ × Option (List UInt8 × γ)) :=
  if ok then some (r.setList name (r.list name).dropLast, (r.list name).getLast?) else none

@[simp] theorem list_setList (r : Redis γ) (name : String) (l : List (List UInt8 × γ)) :
    (r.setList name l).list name = l := by
  simp [list, setList]

end Redis
