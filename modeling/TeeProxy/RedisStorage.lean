/-
The proxy's storages and queues on Redis (`pkg/storage/redis.go`): values of
one type under keys with the storage's prefix, and a list of such values
under the prefix alone. Expirations are not modelled: a stored value stays
until it is removed.
-/
import TeeProxy.Lib.Redis
import TeeProxy.Types

namespace TeeProxy

/-- The errors of a storage, each with the Redis key it names. A failed
command is `setting`, `getting`, `deleting`, `pushing`, `pushingBack` or
`popping`. -/
inductive StorageErr
  | notFound
  | emptyKey
  | emptyQueue
  | marshaling (key : String) (e : PkgErr)
  | unmarshaling (key : String) (e : PkgErr)
  | setting (key : String)
  | getting (key : String)
  | deleting (key : String)
  | pushing (key : String)
  | pushingBack (key : String)
  | popping (key : String)
  deriving DecidableEq, Repr

/-- `RedisStorage[T]`, with the JSON form of its values. -/
structure RedisStorage (T : Type) where
  keyPrefix : String
  codec : Codec T

namespace RedisStorage

variable {T γ : Type} (s : RedisStorage T)

/-- `prefix`. -/
def prefixed (key : String) : String := s.keyPrefix ++ "-" ++ key

def setWithTTL (ok : Bool) (key : String) (item : T) (r : Redis γ) : Except StorageErr (Redis γ) :=
  if key = "" then .error .emptyKey
  else match s.codec.marshal item with
    | .error e => .error (.marshaling (s.prefixed key) e)
    | .ok data => match r.set ok (s.prefixed key) data with
      | none => .error (.setting (s.prefixed key))
      | some r' => .ok r'

def get (ok : Bool) (key : String) (r : Redis γ) : Except StorageErr T :=
  match r.get ok (s.prefixed key) with
  | none => .error (.getting (s.prefixed key))
  | some none => .error .notFound
  | some (some data) => match s.codec.unmarshal data with
    | .error e => .error (.unmarshaling (s.prefixed key) e)
    | .ok value => .ok value

def remove (ok : Bool) (key : String) (r : Redis γ) : Except StorageErr (Redis γ) :=
  match r.del ok (s.prefixed key) with
  | none => .error (.deleting (s.prefixed key))
  | some r' => .ok r'

/-- `Enqueue`: pushed on the left; what is dequeued is popped on the right. -/
def enqueue (ok : Bool) (item : T) (tag : γ) (r : Redis γ) : Except StorageErr (Redis γ) :=
  match s.codec.marshal item with
  | .error e => .error (.marshaling (s.prefixed "") e)
  | .ok data => match r.lPush ok (s.prefixed "") data tag with
    | none => .error (.pushing (s.prefixed ""))
    | some r' => .ok r'

/-- `Requeue`: pushed on the right, to be the next one popped. -/
def requeue (ok : Bool) (item : T) (tag : γ) (r : Redis γ) : Except StorageErr (Redis γ) :=
  match s.codec.marshal item with
  | .error e => .error (.marshaling (s.prefixed "") e)
  | .ok data => match r.rPush ok (s.prefixed "") data tag with
    | none => .error (.pushingBack (s.prefixed ""))
    | some r' => .ok r'

/-- An element that cannot be read is off the list all the same. -/
def dequeue (ok : Bool) (r : Redis γ) : Redis γ × Except StorageErr (T × γ) :=
  match r.rPop ok (s.prefixed "") with
  | none => (r, .error (.popping (s.prefixed "")))
  | some (_, none) => (r, .error .emptyQueue)
  | some (r', some (data, tag)) => match s.codec.unmarshal data with
    | .error e => (r', .error (.unmarshaling (s.prefixed "") e))
    | .ok t => (r', .ok (t, tag))

/-! ## What the operations do -/

variable {s} {r r' : Redis γ} {ok : Bool} {key : String}

theorem setWithTTL_ok {item : T} (h : s.setWithTTL ok key item r = .ok r') :
    ∃ data, s.codec.marshal item = .ok data ∧ r' = { r with values := r.values.set (s.prefixed key) data } := by
  unfold setWithTTL at h
  split at h
  · cases h
  split at h
  · cases h
  next data hd =>
  cases ok
  · cases h
  · cases h; exact ⟨data, hd, rfl⟩

theorem get_ok {value : T} (h : s.get ok key r = .ok value) :
    ∃ data, r.values.get? (s.prefixed key) = some data ∧ s.codec.unmarshal data = .ok value := by
  unfold get at h
  cases ok
  · cases h
  simp only [Redis.get, if_true] at h
  split at h
  · next hn => cases hn
  · cases h
  next data hd =>
  split at h
  · cases h
  next hu => cases h; exact ⟨data, Option.some.inj hd, hu⟩

/-- A read that succeeds as a command answers what is stored. -/
theorem get_stored {data : List UInt8} {value : T} (hd : r.values.get? (s.prefixed key) = some data)
    (hu : s.codec.unmarshal data = .ok value) : s.get true key r = .ok value := by
  simp [get, Redis.get, hd, hu]

theorem remove_ok (h : s.remove ok key r = .ok r') :
    r' = { r with values := r.values.delete (s.prefixed key) } := by
  unfold remove at h
  cases ok
  · cases h
  · cases h; rfl

theorem enqueue_ok {item : T} {tag : γ} (h : s.enqueue ok item tag r = .ok r') :
    ∃ data, s.codec.marshal item = .ok data ∧
      r' = r.setList (s.prefixed "") ((data, tag) :: r.list (s.prefixed "")) := by
  unfold enqueue at h
  split at h
  · cases h
  next data hd =>
  cases ok
  · cases h
  · cases h; exact ⟨data, hd, rfl⟩

theorem requeue_ok {item : T} {tag : γ} (h : s.requeue ok item tag r = .ok r') :
    ∃ data, s.codec.marshal item = .ok data ∧
      r' = r.setList (s.prefixed "") (r.list (s.prefixed "") ++ [(data, tag)]) := by
  unfold requeue at h
  split at h
  · cases h
  next data hd =>
  cases ok
  · cases h
  · cases h; exact ⟨data, hd, rfl⟩

theorem dequeue_ok {t : T} {tag : γ} (h : s.dequeue ok r = (r', .ok (t, tag))) :
    ∃ l data, r.list (s.prefixed "") = l ++ [(data, tag)] ∧ s.codec.unmarshal data = .ok t ∧
      r' = r.setList (s.prefixed "") l := by
  unfold dequeue at h
  cases ok
  · cases h
  simp only [Redis.rPop, if_true] at h
  split at h
  · next hn => cases hn
  · cases h
  next hp =>
  simp only [Option.some.injEq, Prod.mk.injEq] at hp
  split at h
  · cases h
  next hu =>
  cases h
  obtain ⟨rfl, hlast⟩ := hp
  exact ⟨_, _, (List.dropLast_append_getLast? _ hlast).symm, hu, rfl⟩

theorem dequeue_last {l : List (List UInt8 × γ)} {data : List UInt8} {tag : γ}
    (hl : r.list (s.prefixed "") = l ++ [(data, tag)]) :
    s.dequeue true r = (r.setList (s.prefixed "") l,
      ((s.codec.unmarshal data).mapError (.unmarshaling (s.prefixed ""))).map fun t => (t, tag)) := by
  simp only [dequeue, Redis.rPop, if_true, hl, List.dropLast_concat, List.getLast?_concat]
  cases s.codec.unmarshal data <;> rfl

/-- A failed take leaves the list as it was, unless it took an element it
cannot read. -/
theorem dequeue_error {e : StorageErr} (h : s.dequeue ok r = (r', .error e)) :
    r' = r ∨ ∃ l data tag e', r.list (s.prefixed "") = l ++ [(data, tag)] ∧ s.codec.unmarshal data = .error e' := by
  unfold dequeue at h
  cases ok
  · cases h; exact .inl rfl
  simp only [Redis.rPop, if_true] at h
  split at h
  · next hn => cases hn
  · cases h; exact .inl rfl
  next hp =>
  simp only [Option.some.injEq, Prod.mk.injEq] at hp
  split at h
  next e' hu => exact .inr ⟨_, _, _, e', (List.dropLast_append_getLast? _ hp.2).symm, hu⟩
  next => cases h

end RedisStorage

end TeeProxy
