/-
The calls of a storage on Google Cloud Storage, side by side. Each request to
the bucket is one step and the clock moves between any two. The client retries
a request whose answer was lost, so a call makes its request any number of
times before it ends, and a call that fails ends without.

Next to the bucket the state keeps, as history, a map with an expiry per
entry, which is what the Redis storage keeps, and what each `Get` answered.

In every interleaving a `Get` deletes only what has expired: the generation it
read (`Fenced`), which no later write has. `stored_later` says what takes an
object that has not expired.
-/
import TeeProxy.Gcs.Storage
import TeeProxy.Lib.Lts

namespace TeeProxy.Gcs

variable {T : Type}

/-! ## Calls -/

/-- The calls under way. A write carries, as history, the entry it stands for. -/
inductive Call (T : Type)
  | writing (key : String) (entry : Expiry.Entry T Int) (raw : List UInt8)
  | removing (key : String)
  /-- A `Get` that has read the object. -/
  | judging (key : String) (raw : List UInt8) (generation : Nat)
  /-- A `Get` that found it expired. -/
  | deleting (key : String) (generation : Nat)

/-- What a `Get` returned, and what the map had at that moment. -/
structure Answer (T : Type) where
  key : String
  got : Except GcsErr T
  expected : Except GcsErr T

/-- The bucket with its clock and the calls on their way, beside the map that it
implements and the answers given. -/
structure State (T : Type) where
  clock : Nat
  bucket : Bucket
  calls : List (Call T)
  map : String → Option (Expiry.Entry T Int)
  answers : List (Answer T)

/-- An empty bucket at some time. -/
def State.start (clock : Nat) : State T := ⟨clock, ⟨∅, 0⟩, [], fun _ => none, []⟩

/-- A tick of the clock, the start of a call, or the next request of a call. -/
inductive Event (T : Type)
  | tick (d : Nat)
  | set (key : String) (item : T)
  | setWithTTL (key : String) (item : T) (expiration : Int)
  | remove (key : String)
  | get (key : String)
  /-- The write's upload. -/
  | upload (n : Nat)
  /-- The remove's delete. -/
  | delete (n : Nat)
  /-- `Get` looks at what it read. -/
  | judge (n : Nat)
  /-- `deleteGeneration`. -/
  | clean (n : Nat)
  /-- The call returns. -/
  | finish (n : Nat)

/-- A missing value is `ErrNotFound`. -/
def orNotFound : Option T → Except GcsErr T
  | none => .error .notFound
  | some value => .ok value

namespace State

variable (g : GCSStorage T) (s : State T)

/-- The key's object. -/
def stored (key : String) : Option Object := s.bucket.objects.get? (g.object key)

/-- What a map with an expiry per entry returns now. -/
def expected (key : String) : Except GcsErr T := orNotFound (Expiry.get s.map (s.clock : Int) key)

def begin (c : Call T) : State T := { s with calls := s.calls ++ [c] }

def finish (n : Nat) : State T := { s with calls := s.calls.eraseIdx n }

/-- A `Get` answers; what the map has at that moment is recorded. -/
def answer (key : String) (got : Except GcsErr T) : State T :=
  { s with answers := s.answers ++ [⟨key, got, s.expected key⟩] }

/-- A write that is refused returns at once. -/
def beginWrite (key : String) (entry : Expiry.Entry T Int) : Except GcsErr (List UInt8) → State T
  | .error _ => s
  | .ok raw => s.begin (.writing key entry raw)

end State

/-- The requests of a call are steps of their own. -/
def step (g : GCSStorage T) (s : State T) : Event T → Option (State T)
  | .tick d => some { s with clock := s.clock + d }
  | .set key item => some (s.beginWrite key ⟨item, none⟩ (g.set key item))
  | .setWithTTL key item ttl =>
    some (s.beginWrite key ⟨item, some (s.clock + ttl)⟩ (g.setWithTTL s.clock key item ttl))
  | .remove key => some (s.begin (.removing key))
  | .get key => match s.stored g key with
    | none => some (s.answer key (.error .notFound))
    | some o => some (s.begin (.judging key o.raw o.generation))
  | .upload n => match s.calls[n]? with
    | some (.writing key entry raw) => some { s with
        bucket := s.bucket.upload (g.object key) raw
        map := Function.update s.map key (some entry) }
    | _ => none
  | .delete n => match s.calls[n]? with
    | some (.removing key) => some { s with
        bucket := s.bucket.delete (g.object key)
        map := Function.update s.map key none }
    | _ => none
  | .judge n => match s.calls[n]? with
    | some (.judging key raw generation) => match g.check key raw s.clock with
      | .error e => some ((s.finish n).answer key (.error e))
      | .ok none => some ({ s with calls := s.calls.set n (.deleting key generation) }.answer key (.error .notFound))
      | .ok (some value) => some ((s.finish n).answer key (.ok value))
    | _ => none
  | .clean n => match s.calls[n]? with
    | some (.deleting key generation) =>
      some { s with bucket := s.bucket.deleteGeneration (g.object key) generation }
    | _ => none
  | .finish n => if n < s.calls.length then some (s.finish n) else none

/-- An empty bucket at any time. -/
def system (g : GCSStorage T) : Lts.System (State T) (Event T) where
  init s := ∃ clock, s = .start clock
  step := step g

/-- The entry a write stands for, and the envelope it uploads. -/
def Event.write? (g : GCSStorage T) (now : Nat) :
    Event T → Option (String × Expiry.Entry T Int × Except GcsErr (List UInt8))
  | .set key item => some (key, ⟨item, none⟩, g.set key item)
  | .setWithTTL key item ttl => some (key, ⟨item, some (now + ttl)⟩, g.setWithTTL now key item ttl)
  | _ => none

/-- What a step can do. -/
inductive Step (g : GCSStorage T) (s : State T) : Event T → State T → Prop
  | tick (d : Nat) : Step g s (.tick d) { s with clock := s.clock + d }
  | refused {e : Event T} {key entry err} (he : e.write? g s.clock = some (key, entry, .error err)) : Step g s e s
  | begun {e : Event T} {key entry raw} (he : e.write? g s.clock = some (key, entry, .ok raw)) :
    Step g s e (s.begin (.writing key entry raw))
  | removing (key : String) : Step g s (.remove key) (s.begin (.removing key))
  | absent {key} (hs : s.stored g key = none) : Step g s (.get key) (s.answer key (.error .notFound))
  | reading {key o} (hs : s.stored g key = some o) :
    Step g s (.get key) (s.begin (.judging key o.raw o.generation))
  | uploaded {n key entry raw} (hn : s.calls[n]? = some (.writing key entry raw)) :
    Step g s (.upload n) { s with
      bucket := s.bucket.upload (g.object key) raw
      map := Function.update s.map key (some entry) }
  | deleted {n key} (hn : s.calls[n]? = some (.removing key)) :
    Step g s (.delete n) { s with
      bucket := s.bucket.delete (g.object key)
      map := Function.update s.map key none }
  | failed {n key raw generation err} (hn : s.calls[n]? = some (.judging key raw generation))
      (hc : g.check key raw s.clock = .error err) :
    Step g s (.judge n) ((s.finish n).answer key (.error err))
  | expired {n key raw generation} (hn : s.calls[n]? = some (.judging key raw generation))
      (hc : g.check key raw s.clock = .ok none) :
    Step g s (.judge n)
      ({ s with calls := s.calls.set n (.deleting key generation) }.answer key (.error .notFound))
  | found {n key raw generation value} (hn : s.calls[n]? = some (.judging key raw generation))
      (hc : g.check key raw s.clock = .ok (some value)) :
    Step g s (.judge n) ((s.finish n).answer key (.ok value))
  | cleaned {n key generation} (hn : s.calls[n]? = some (.deleting key generation)) :
    Step g s (.clean n) { s with bucket := s.bucket.deleteGeneration (g.object key) generation }
  | finished (n : Nat) : Step g s (.finish n) (s.finish n)

theorem step_beginWrite {g : GCSStorage T} {s : State T} {e : Event T} {key entry doc}
    (he : e.write? g s.clock = some (key, entry, doc)) : Step g s e (s.beginWrite key entry doc) := by
  cases doc with
  | error err => exact .refused he
  | ok raw => exact .begun he

theorem step_inv {g : GCSStorage T} {s s' : State T} {e : Event T} (h : step g s e = some s') : Step g s e s' := by
  cases e with
  | tick d => cases h; exact .tick d
  | set key item => cases h; exact step_beginWrite rfl
  | setWithTTL key item ttl => cases h; exact step_beginWrite rfl
  | remove key => cases h; exact .removing key
  | get key =>
    simp only [step] at h
    split at h
    next hs => cases h; exact .absent hs
    next o hs => cases h; exact .reading hs
  | upload n =>
    simp only [step] at h
    split at h
    next hn => cases h; exact .uploaded hn
    next => cases h
  | delete n =>
    simp only [step] at h
    split at h
    next hn => cases h; exact .deleted hn
    next => cases h
  | judge n =>
    simp only [step] at h
    split at h
    next hn =>
      split at h
      next hc => cases h; exact .failed hn hc
      next hc => cases h; exact .expired hn hc
      next hc => cases h; exact .found hn hc
    next => cases h
  | clean n =>
    simp only [step] at h
    split at h
    next hn => cases h; exact .cleaned hn
    next => cases h
  | finish n =>
    simp only [step] at h
    split at h
    next => cases h; exact .finished n
    next => cases h

/-! ## Any interleaving -/

section Interleaved

variable {g : GCSStorage T} {s s' : State T} {e : Event T}

theorem Step.clock_le (h : Step g s e s') : s.clock ≤ s'.clock := by
  cases h with
  | tick d => exact Nat.le_add_right _ _
  | _ => exact le_rfl

theorem Step.evolves (h : Step g s e s') : s.bucket.Evolves s'.bucket := by
  cases h with
  | uploaded hn => exact Bucket.evolves_upload _
  | deleted hn => exact Bucket.evolves_delete
  | cleaned hn => exact Bucket.evolves_deleteGeneration
  | _ => exact .refl _

/-- What a `Get` under way knows of the generation it read: its bytes, and
that they have expired. -/
def Call.Fenced (g : GCSStorage T) (now : Nat) (b : Bucket) : Call T → Prop
  | .judging key raw generation => generation < b.nextGeneration ∧
      ∀ o, b.objects.get? (g.object key) = some o → o.generation = generation → o.raw = raw
  | .deleting key generation => generation < b.nextGeneration ∧
      ∀ o, b.objects.get? (g.object key) = some o → o.generation = generation → g.Expired o.raw now
  | _ => True

/-- A later write has a later generation, so it is never taken for the one
that was read. -/
theorem Call.Fenced.later {now now' : Nat} {b b' : Bucket} {c : Call T} (h : c.Fenced g now b) (hnow : now ≤ now')
    (hb : b.Evolves b') : c.Fenced g now' b' := by
  have hold : ∀ name o generation, generation < b.nextGeneration → b'.objects.get? name = some o →
      o.generation = generation → b.objects.get? name = some o := by
    intro name o generation hlt ho hgen
    rcases hb.old name o ho with hold | ⟨hge, -⟩
    · exact hold
    · omega
  cases c with
  | writing key entry raw => trivial
  | removing key => trivial
  | judging key raw generation =>
    obtain ⟨hlt, hread⟩ := h
    exact ⟨hlt.trans_le hb.next, fun o ho hgen => hread o (hold _ _ _ hlt ho hgen) hgen⟩
  | deleting key generation =>
    obtain ⟨hlt, hread⟩ := h
    exact ⟨hlt.trans_le hb.next, fun o ho hgen => (hread o (hold _ _ _ hlt ho hgen) hgen).later (by omega)⟩

/-- Generations are in order, and what a call has read still holds of the
generation it read. -/
structure Fenced (g : GCSStorage T) (s : State T) : Prop where
  numbered : s.bucket.Numbered
  calls : ∀ c ∈ s.calls, c.Fenced g s.clock s.bucket

/-- The calls after a step: those before it, and at most one that has read
or judged the bucket as it is. -/
theorem Step.calls_fenced (h : Step g s e s') (hs : Fenced g s) :
    ∀ c ∈ s'.calls, c.Fenced g s.clock s.bucket := by
  have hbegin : ∀ c, c.Fenced g s.clock s.bucket → ∀ d ∈ s.calls ++ [c], d.Fenced g s.clock s.bucket := by
    intro c hc d hd
    rcases List.mem_append.mp hd with hd | hd
    · exact hs.calls d hd
    · rw [List.mem_singleton.mp hd]; exact hc
  have herase : ∀ n, ∀ d ∈ s.calls.eraseIdx n, d.Fenced g s.clock s.bucket :=
    fun n d hd => hs.calls d (List.mem_of_mem_eraseIdx hd)
  cases h with
  | begun he => exact hbegin _ trivial
  | removing key => exact hbegin _ trivial
  | reading hget =>
    refine hbegin _ ⟨hs.numbered _ _ hget, fun o ho _ => ?_⟩
    cases hget.symm.trans ho
    rfl
  | failed hn hc => exact herase _
  | found hn hc => exact herase _
  | finished n => exact herase _
  | expired hn hc =>
    intro d hd
    rcases List.mem_or_eq_of_mem_set hd with hd | rfl
    · exact hs.calls d hd
    · obtain ⟨hlt, hread⟩ := hs.calls _ (List.mem_of_getElem? hn)
      exact ⟨hlt, fun o ho hgen => hread o ho hgen ▸ GCSStorage.expired_of_check hc⟩
  | _ => exact hs.calls

theorem fenced_of_reach {ok : State T → Event T → Prop} (h : Lts.Reach (system g) ok s) : Fenced g s := by
  refine h.invariant (Fenced g) ?_ ?_
  · rintro s ⟨clock, rfl⟩
    exact ⟨fun _ _ ho => (nomatch ho), fun _ hc => (nomatch hc)⟩
  · intro s e s' _ hs _ hstep
    have hst := step_inv hstep
    exact ⟨hst.evolves.numbered hs.numbered,
      fun c hc => (hst.calls_fenced hs c hc).later hst.clock_le hst.evolves⟩

/-- The step at which the key's object goes: a `Remove`'s delete, or the
upload of a write, whose object takes its place. -/
def Takes (g : GCSStorage T) (key : String) (o : Object) (s : State T) (e : Event T) (s' : State T) : Prop :=
  ∃ n, (e = .delete n ∧ s.calls[n]? = some (.removing key)) ∨
    ∃ entry raw o', e = .upload n ∧ s.calls[n]? = some (.writing key entry raw) ∧
      s'.stored g key = some o' ∧ o'.raw = raw ∧ o.generation < o'.generation

/-- **One step.** What has not expired stays, unless a `Remove` or a write of
its key takes it. -/
theorem Step.stored (h : Step g s e s') (hs : Fenced g s) {key : String} {o : Object}
    (ho : s.stored g key = some o) (hlive : ¬ g.Expired o.raw s.clock) :
    s'.stored g key = some o ∨ Takes g key o s e s' := by
  -- A request for another key's object leaves this one.
  cases h with
  | @uploaded n key' entry raw hn =>
    by_cases hk : key = key'
    · subst hk
      exact .inr ⟨n, .inr ⟨entry, raw, _, rfl, hn, GoMap.get?_set_self _ _ _, rfl, hs.numbered _ _ ho⟩⟩
    · exact .inl ((GoMap.get?_set_ne _ (fun h => hk (g.object_injective h)) _).trans ho)
  | @deleted n key' hn =>
    by_cases hk : key = key'
    · subst hk
      exact .inr ⟨n, .inl ⟨rfl, hn⟩⟩
    · exact .inl ((GoMap.get?_delete _ _ _).trans ((if_neg fun h => hk (g.object_injective h)).trans ho))
  | @cleaned n key' generation hn =>
    refine .inl ?_
    rcases s.bucket.deleteGeneration_cases (g.object key') generation with heq | ⟨o', ho', hgen, heq⟩
    · simp only [State.stored, heq]
      exact ho
    · have hexp := (hs.calls _ (List.mem_of_getElem? hn)).2 o' ho' hgen
      simp only [State.stored, heq, Bucket.delete, GoMap.get?_delete]
      rw [if_neg]
      · exact ho
      · intro hname
        rw [State.stored, hname] at ho
        cases ho.symm.trans ho'
        exact hlive hexp
  | _ => exact .inl ho

/-- **Any run.** -/
theorem stored_later (hr : Lts.Reach (system g) Lts.Free s) (hl : Lts.Later (system g) Lts.Free s s')
    {key : String} {o : Object} (ho : s.stored g key = some o) (hlive : ¬ g.Expired o.raw s'.clock) :
    s'.stored g key = some o ∨ ∃ t e t', Lts.Later (system g) Lts.Free s t ∧ t.stored g key = some o ∧
      (system g).step t e = some t' ∧ Takes g key o t e t' ∧ Lts.Later (system g) Lts.Free t' s' := by
  induction hl with
  | refl => exact .inl ho
  | @step t e t' hl htriv hstep ih =>
    have hst := step_inv hstep
    have hlive' : ¬ g.Expired o.raw t.clock := fun h => hlive (h.later (Int.ofNat_le.mpr hst.clock_le))
    rcases ih hlive' with hst' | ⟨u, f, u', hu, hstored, hf, htakes, hrest⟩
    · rcases hst.stored (fenced_of_reach (hr.later hl)) hst' hlive' with hkept | htakes
      · exact .inl hkept
      · exact .inr ⟨t, e, t', hl, hst', hstep, htakes, .refl⟩
    · exact .inr ⟨u, f, u', hu, hstored, hf, htakes, .step hrest htriv hstep⟩

end Interleaved

end TeeProxy.Gcs
