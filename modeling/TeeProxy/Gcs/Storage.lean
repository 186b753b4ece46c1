/-
The storage on Google Cloud Storage (`pkg/storage/gcs.go`): one object per
key, holding an envelope of the value's JSON form and its expiration. `write`
builds the envelope, `check` is what `Get` makes of one it read. Times count
nanoseconds since Go's zero time.

A bucket numbers its writes, and a conditional delete takes only the write it
names.
-/
import TeeProxy.Lib.Expiry
import TeeProxy.Lib.Redis
import TeeProxy.Types

namespace TeeProxy

/-! ## The envelope -/

/-- `gcsDoc`. `expiresAt` is `0` for Go's zero time. -/
structure GcsDoc where
  data : List UInt8
  expiresAt : Int
  deriving DecidableEq, Repr

/-- The errors of a call, each with the object it names. -/
inductive GcsErr
  | notFound
  | emptyKey
  | decoding (object : String) (e : PkgErr)
  | unmarshaling (object : String) (e : PkgErr)
  | marshaling (object : String) (e : PkgErr)
  | marshalingEnvelope (object : String) (e : PkgErr)
  deriving DecidableEq, Repr

/-- `GCSStorage[T]`, with the JSON forms of its values and of the envelope. -/
structure GCSStorage (T : Type) where
  namePrefix : String
  codec : Codec T
  docs : Codec GcsDoc

/-- `!doc.ExpiresAt.IsZero() && time.Now().After(doc.ExpiresAt)`. -/
def GcsDoc.Expired (doc : GcsDoc) (now : Int) : Prop := doc.expiresAt ≠ 0 ∧ doc.expiresAt < now

instance (doc : GcsDoc) (now : Int) : Decidable (doc.Expired now) :=
  inferInstanceAs (Decidable (_ ∧ _))

namespace GCSStorage

variable {T : Type} (g : GCSStorage T)

/-- The name of the key's object. -/
def object (key : String) : String := g.namePrefix ++ "/" ++ key

/-- `write`, up to the upload: what is uploaded. -/
def write (key : String) (item : T) (expiresAt : Int) : Except GcsErr (List UInt8) :=
  if key = "" then .error .emptyKey
  else match g.codec.marshal item with
    | .error e => .error (.marshaling (g.object key) e)
    | .ok data => match g.docs.marshal ⟨data, expiresAt⟩ with
      | .error e => .error (.marshalingEnvelope (g.object key) e)
      | .ok doc => .ok doc

/-- `Set`: an entry without an expiration. -/
def set (key : String) (item : T) : Except GcsErr (List UInt8) := g.write key item 0

def setWithTTL (now : Int) (key : String) (item : T) (expiration : Int) : Except GcsErr (List UInt8) :=
  g.write key item (now + expiration)

/-- What `Get` makes of the object it read: `none` is an expired one. -/
def check (key : String) (raw : List UInt8) (now : Int) : Except GcsErr (Option T) :=
  match g.docs.unmarshal raw with
  | .error e => .error (.decoding (g.object key) e)
  | .ok doc =>
    if doc.Expired now then .ok none
    else match g.codec.unmarshal doc.data with
      | .error e => .error (.unmarshaling (g.object key) e)
      | .ok value => .ok (some value)

/-- An envelope that has expired. -/
def Expired (raw : List UInt8) (now : Int) : Prop := ∃ doc, g.docs.unmarshal raw = .ok doc ∧ doc.Expired now

/-- The entry an envelope stands for; the zero time is no expiry. -/
def entry (raw : List UInt8) : Option (Expiry.Entry T Int) :=
  match g.docs.unmarshal raw with
  | .error _ => none
  | .ok doc => match g.codec.unmarshal doc.data with
    | .error _ => none
    | .ok value => some ⟨value, if doc.expiresAt = 0 then none else some doc.expiresAt⟩

theorem object_injective : Function.Injective g.object := by
  intro key key' h
  exact String.append_right_inj _ |>.mp h

variable {g} {key : String} {raw : List UInt8} {now now' : Int} {item : T} {expiresAt : Int} {e : Expiry.Entry T Int}

theorem Expired.later (h : g.Expired raw now) (hle : now ≤ now') : g.Expired raw now' := by
  obtain ⟨doc, hdoc, hz, hlt⟩ := h
  exact ⟨doc, hdoc, hz, by omega⟩

theorem expired_of_check (h : g.check key raw now = .ok none) : g.Expired raw now := by
  unfold check at h
  split at h
  · cases h
  next doc hdoc =>
    split at h
    next hexp => exact ⟨doc, hdoc, hexp⟩
    next =>
      split at h
      · cases h
      · cases h

theorem entry_write (h : g.write key item expiresAt = .ok raw) :
    g.entry raw = some ⟨item, if expiresAt = 0 then none else some expiresAt⟩ := by
  unfold write at h
  split at h
  · cases h
  · split at h
    · cases h
    next data hdata =>
      split at h
      · cases h
      next doc hdoc =>
        cases h
        simp only [entry, g.docs.unmarshal_marshal _ _ hdoc, g.codec.unmarshal_marshal _ _ hdata]

theorem entry_set (h : g.set key item = .ok raw) : g.entry raw = some ⟨item, none⟩ := by
  rw [entry_write h, if_pos rfl]

/-- The time plus a positive TTL is never the zero time. -/
theorem entry_setWithTTL {ttl : Int} (hnow : 0 ≤ now) (httl : 0 < ttl) (h : g.setWithTTL now key item ttl = .ok raw) :
    g.entry raw = some ⟨item, some (now + ttl)⟩ := by
  rw [entry_write h, if_neg (by omega)]

/-- `Get` answers with the entry's value while it is live. -/
theorem check_entry (h : g.entry raw = some e) :
    g.check key raw now = .ok (if e.Live now then some e.value else none) := by
  unfold entry at h
  split at h
  · cases h
  next doc hdoc =>
    split at h
    · cases h
    next value hvalue =>
      cases h
      simp only [check, hdoc, hvalue, GcsDoc.Expired, Expiry.Entry.Live]
      by_cases hz : doc.expiresAt = 0
      · simp [hz]
      · by_cases hlt : doc.expiresAt < now
        · simp [hz, hlt]
        · simp [hz, hlt, not_lt.mp hlt]

theorem Expired.not_live (hexp : g.Expired raw now) (h : g.entry raw = some e) : ¬ e.Live now := by
  intro hlive
  obtain ⟨doc, hdoc, hdead⟩ := hexp
  have hc : g.check "" raw now = .ok _ := check_entry h
  rw [if_pos hlive] at hc
  simp only [check, hdoc, if_pos hdead, Except.ok.injEq, reduceCtorEq] at hc

end GCSStorage

/-! ## The bucket -/

/-- An object and its generation. -/
structure Gcs.Object where
  raw : List UInt8
  generation : Nat
  deriving DecidableEq, Repr

/-- The objects, and the generation the next upload gets. -/
structure Gcs.Bucket where
  objects : GoMap String Gcs.Object
  nextGeneration : Nat

namespace Gcs.Bucket

variable (b : Bucket) (name : String)

/-- An upload makes a new generation. -/
def upload (raw : List UInt8) : Bucket :=
  ⟨b.objects.set name ⟨raw, b.nextGeneration⟩, b.nextGeneration + 1⟩

def delete : Bucket := { b with objects := b.objects.delete name }

/-- `Delete` with `GenerationMatch`. -/
def deleteGeneration (generation : Nat) : Bucket :=
  if (b.objects.get? name).any (·.generation = generation) then b.delete name else b

/-- Whatever is new in `b'` has a generation given out since `b`. -/
structure Evolves (b b' : Bucket) : Prop where
  next : b.nextGeneration ≤ b'.nextGeneration
  old : ∀ name o, b'.objects.get? name = some o →
    b.objects.get? name = some o ∨ b.nextGeneration ≤ o.generation ∧ o.generation < b'.nextGeneration

/-- Every object's generation has been given out. -/
def Numbered (b : Bucket) : Prop := ∀ name o, b.objects.get? name = some o → o.generation < b.nextGeneration

variable {b name}

theorem Evolves.refl (b : Bucket) : Evolves b b := ⟨le_rfl, fun _ _ h => .inl h⟩

theorem evolves_upload (raw : List UInt8) : Evolves b (b.upload name raw) := by
  refine ⟨Nat.le_succ _, fun name' o h => ?_⟩
  simp only [upload, GoMap.get?_set] at h
  split at h
  · cases h; exact .inr ⟨le_rfl, Nat.lt_succ_self _⟩
  · exact .inl h

theorem get?_of_delete {name' : String} {o : Object} (h : (b.delete name).objects.get? name' = some o) :
    b.objects.get? name' = some o := by
  simp only [delete, GoMap.get?_delete] at h
  split at h
  · cases h
  · exact h

theorem evolves_delete : Evolves b (b.delete name) := ⟨le_rfl, fun _ _ h => .inl (get?_of_delete h)⟩

theorem evolves_deleteGeneration {generation : Nat} : Evolves b (b.deleteGeneration name generation) := by
  unfold deleteGeneration
  split
  · exact evolves_delete
  · exact .refl b

theorem Evolves.numbered {b' : Bucket} (h : Evolves b b') (hb : b.Numbered) : b'.Numbered := by
  intro name o ho
  rcases h.old name o ho with hold | ⟨-, hlt⟩
  · exact (hb name o hold).trans_le h.next
  · exact hlt

/-- A conditional delete does nothing, or deletes the write it names. -/
theorem deleteGeneration_cases (b : Bucket) (name : String) (generation : Nat) :
    b.deleteGeneration name generation = b ∨
      ∃ o, b.objects.get? name = some o ∧ o.generation = generation ∧
        b.deleteGeneration name generation = b.delete name := by
  unfold deleteGeneration
  split
  next h =>
    obtain ⟨o, ho, hgen⟩ := (Option.any_eq_true _ _).mp h
    exact .inr ⟨o, ho, of_decide_eq_true hgen, rfl⟩
  next => exact .inl rfl

end Gcs.Bucket

end TeeProxy
