/-
The two backends of `storage.Storage` (`pkg/storage/redis.go` and
`pkg/storage/gcs.go`) and the wrapper that counts their operations
(`pkg/storage/observer.go`), side by side.

Results and backups are kept in Redis, or in a bucket if one is configured, with
or without metrics, and the services know the interface only. Redis drops what
has expired; the bucket keeps it until a `Get` finds it, and longer if the
delete of that `Get` fails. Both keep one map with expiry all the same, so their
callers cannot tell them apart (`backends_agree`).

The TTLs are positive, as `Storage.validate` of `pkg/config/config.go` asks. With
a TTL of zero the two differ: it is none to Redis, and over at once for the
bucket. The clock is one for all and counts in the unit of Redis, milliseconds.
-/
import TeeProxy.Gcs.Mirror
import TeeProxy.Storage

namespace TeeProxy.Backends

open Gcs (Bucket)

/-! ## Calls and answers -/

/-- A call of `storage.Storage[T]`. -/
inductive Call (T : Type)
  | set (key : String) (item : T)
  | setWithTTL (key : String) (item : T) (expiration : Int)
  | get (key : String)
  | remove (key : String)

/-- Why a command of a backend fails: `context.Canceled`,
`context.DeadlineExceeded` or another error. -/
inductive Fault
  | canceled
  | deadlineExceeded
  | other
  deriving DecidableEq, Repr

/-- How a backend serves a command. One that fails may have been applied. -/
inductive Reply
  | ok
  | fault (f : Fault) (applied : Bool)

/-- What a call answers, but for the name of the key in an error's text. -/
inductive Answer (T : Type)
  | done
  | value (item : T)
  | notFound
  | emptyKey
  | marshaling (e : PkgErr)
  | unmarshaling (e : PkgErr)
  | failed (f : Fault)
  deriving DecidableEq, Repr

/-- A call some time after the last one, and what happens around it: how its
command is served, whether the delete of an expired object succeeds, and
whether its context was done before it began. -/
structure Ask (T : Type) where
  delay : Nat
  call : Call T
  reply : Reply
  cleaned : Bool
  preExpired : Bool

/-- What a call does to the states of a backend at a time. -/
structure Backend (σ T : Type) where
  call : Int → σ → Ask T → σ × Answer T

section

variable {σ T : Type}

/-- The store after a command: a failed command may still have been applied. -/
def Reply.apply (reply : Reply) (before after : σ) : σ :=
  match reply with
  | .ok => after
  | .fault _ applied => if applied then after else before

/-- The answer to a command that failed is its fault. -/
def Reply.answer (reply : Reply) (a : Answer T) : Answer T :=
  match reply with
  | .ok => a
  | .fault f _ => .failed f

def Answer.ofOption : Option T → Answer T
  | none => .notFound
  | some item => .value item

/-- The sentinels of Redis storage; every other error is a failed command. -/
def Answer.ofStorageErr : StorageErr → Answer T
  | .notFound => .notFound
  | .emptyKey => .emptyKey
  | .marshaling _ e => .marshaling e
  | .unmarshaling _ e => .unmarshaling e
  | _ => .failed .other

def Answer.ofGcsErr : GcsErr → Answer T
  | .notFound => .notFound
  | .emptyKey => .emptyKey
  | .marshaling _ e | .marshalingEnvelope _ e => .marshaling e
  | .unmarshaling _ e | .decoding _ e => .unmarshaling e

/-- The state after a run of calls, and their answers. -/
def Backend.run (b : Backend σ T) : Int → σ → List (Ask T) → σ × List (Answer T)
  | _, s, [] => (s, [])
  | now, s, a :: asks =>
    let here := b.call (now + a.delay) s a
    let rest := b.run (now + a.delay) here.1 asks
    (rest.1, here.2 :: rest.2)

/-- TTLs are positive, and over before the horizon. -/
def Call.Timed (horizon now : Int) : Call T → Prop
  | .setWithTTL _ _ expiration => 0 < expiration ∧ now + expiration ≤ horizon
  | _ => True

/-- All calls of a run are. -/
def Timed (horizon : Int) : Int → List (Ask T) → Prop
  | _, [] => True
  | now, a :: asks => a.call.Timed horizon (now + a.delay) ∧ Timed horizon (now + a.delay) asks

instance (horizon now : Int) (c : Call T) : Decidable (c.Timed horizon now) := by
  cases c <;> unfold Call.Timed <;> infer_instance

instance decidableTimed (horizon : Int) : ∀ now asks, Decidable (@Timed T horizon now asks)
  | _, [] => .isTrue trivial
  | now, a :: asks =>
    haveI := decidableTimed horizon (now + a.delay) asks
    inferInstanceAs (Decidable (_ ∧ _))

end

/-! ## The map with expiry -/

section Reference

variable {T : Type} (codec : Codec T)

/-- Values under keys, and when they expire. -/
abbrev Contents (T : Type) := String → Option (Expiry.Entry T Int)

/-- `Set` and `SetWithTTL` on the map: an item that cannot be marshalled is not
kept. -/
def keep (m : Contents T) (reply : Reply) (key : String) (item : T) (expiresAt : Option Int) :
    Contents T × Answer T :=
  if key = "" then (m, .emptyKey)
  else match codec.marshal item with
    | .error e => (m, .marshaling e)
    | .ok _ => (reply.apply m (Function.update m key (some ⟨item, expiresAt⟩)), reply.answer .done)

/-- **What a storage is for**: a value is there under its key until it is
removed, replaced or over. -/
def reference : Backend (Contents T) T where
  call now m a := match a.call with
    | .set key item => keep codec m a.reply key item none
    | .setWithTTL key item expiration => keep codec m a.reply key item (some (now + expiration))
    | .get key => (m, a.reply.answer (.ofOption (Expiry.get m now key)))
    | .remove key => (a.reply.apply m (Function.update m key none), a.reply.answer .done)

variable {codec} {now : Int} {m o : Contents T}

theorem lazy_apply (reply : Reply) (h : Expiry.Lazy now m o) {m' o' : Contents T} (h' : Expiry.Lazy now m' o') :
    Expiry.Lazy now (reply.apply m m') (reply.apply o o') := by
  unfold Reply.apply
  split
  · exact h'
  · split
    · exact h'
    · exact h

theorem lazy_keep (h : Expiry.Lazy now m o) (reply : Reply) (key : String) (item : T) (expiresAt : Option Int) :
    (keep codec m reply key item expiresAt).2 = (keep codec o reply key item expiresAt).2 ∧
      Expiry.Lazy now (keep codec m reply key item expiresAt).1 (keep codec o reply key item expiresAt).1 := by
  unfold keep
  split
  · exact ⟨rfl, h⟩
  · split
    · exact ⟨rfl, h⟩
    · exact ⟨rfl, lazy_apply reply h (h.update key _)⟩

/-- A map that has dropped some of what expired answers the same. -/
theorem reference_lazy (h : Expiry.Lazy now m o) (a : Ask T) :
    ((reference codec).call now m a).2 = ((reference codec).call now o a).2 ∧
      Expiry.Lazy now ((reference codec).call now m a).1 ((reference codec).call now o a).1 := by
  cases hc : a.call with
  | set key item => simpa only [reference, hc] using lazy_keep h a.reply key item none
  | setWithTTL key item expiration =>
    simpa only [reference, hc] using lazy_keep h a.reply key item (some (now + expiration))
  | get key => simpa only [reference, hc, h.get_eq, true_and] using h
  | remove key => simpa only [reference, hc, true_and] using lazy_apply a.reply h (h.update key none)

end Reference

/-! ## Backends that keep it -/

section Keeps

variable {σ T : Type} {codec : Codec T} {horizon now : Int} {b : Backend σ T} {view : σ → Contents T} {Sound : σ → Prop}

/-- The answer is the map's, and what is seen in the state is the map, but for
some of what has expired. -/
structure Agrees (view : σ → Contents T) (Sound : σ → Prop) (now : Int) (res : σ × Answer T)
    (ref : Contents T × Answer T) : Prop where
  answer : res.2 = ref.2
  contents : Expiry.Lazy now ref.1 (view res.1)
  sound : Sound res.1

theorem Agrees.unchanged {s : σ} (hs : Sound s) (answer : Answer T) :
    Agrees view Sound now (s, answer) (view s, answer) := ⟨rfl, .refl _, hs⟩

theorem Agrees.reply {s s' : σ} {m : Contents T} (reply : Reply) (hs : Sound s) (hs' : Sound s') (hm : view s' = m)
    (answer : Answer T) :
    Agrees view Sound now (reply.apply s s', reply.answer answer) (reply.apply (view s) m, reply.answer answer) := by
  subst hm
  cases reply with
  | ok => exact ⟨rfl, .refl _, hs'⟩
  | fault f applied =>
    cases applied with
    | false => exact ⟨rfl, .refl _, hs⟩
    | true => exact ⟨rfl, .refl _, hs'⟩

/-- Every call on a sound state is a call on the map that is seen in it. -/
def Keeps (codec : Codec T) (horizon : Int) (b : Backend σ T) (view : σ → Contents T) (Sound : σ → Prop) : Prop :=
  ∀ (now : Int) (s : σ) (a : Ask T), 0 ≤ now → a.call.Timed horizon now → Sound s →
    Agrees view Sound now (b.call now s a) ((reference codec).call now (view s) a)

/-- **Whole runs.** Time passes between the calls, and with it more of what is
kept expires. -/
theorem Keeps.run (h : Keeps codec horizon b view Sound) {s : σ} {m : Contents T} {asks : List (Ask T)}
    (hnow : 0 ≤ now) (htimed : Timed horizon now asks) (hs : Sound s) (hm : Expiry.Lazy now m (view s)) :
    (b.run now s asks).2 = ((reference codec).run now m asks).2 := by
  induction asks generalizing now s m with
  | nil => rfl
  | cons a asks ih =>
    have hthen : 0 ≤ now + a.delay := by omega
    have hlater : Expiry.Lazy (now + a.delay) m (view s) := hm.later (by omega)
    obtain ⟨hanswer, hlazy⟩ := @reference_lazy _ codec _ _ _ hlater a
    have hcall := h _ s a hthen htimed.1 hs
    have hrest := ih hthen htimed.2 hcall.sound (hlazy.trans hcall.contents)
    simp only [Backend.run]
    rw [hrest, hcall.answer, hanswer]

end Keeps

/-! ## Redis -/

/-- A Redis server: its values, and when the ones with a TTL expire. -/
structure Server where
  data : Redis Unit
  expires : GoMap String Int

namespace Server

/-- `SET` replaces the TTL with the value; one that is not positive is none. -/
def setExpiry (r : Server) (data : Redis Unit) (now : Int) (key : String) (expiration : Int) : Server :=
  ⟨data, if 0 < expiration then r.expires.set key (now + expiration) else r.expires.delete key⟩

/-- The value goes, and its expiry with it. -/
def delete (r : Server) (data : Redis Unit) (key : String) : Server := ⟨data, r.expires.delete key⟩

/-- A command finds a value that has expired gone. -/
def expireIfNeeded (r : Server) (now : Int) (key : String) : Server :=
  if (r.expires.get? key).any (· < now) then
    r.delete { r.data with values := r.data.values.delete key } key
  else r

end Server

section Redis

variable {T : Type} (s : RedisStorage T)

/-- `Set` and `SetWithTTL`. -/
def redisSet (now : Int) (r : Server) (reply : Reply) (key : String) (item : T) (expiration : Int) :
    Server × Answer T :=
  match s.setWithTTL true key item r.data with
  | .error e => (r, .ofStorageErr e)
  | .ok data => (reply.apply r (r.setExpiry data now (s.prefixed key) expiration), reply.answer .done)

/-- `Get` on Redis: the server drops an expired value before it answers. -/
def redisGet (now : Int) (r : Server) (reply : Reply) (key : String) : Server × Answer T :=
  let found := r.expireIfNeeded now (s.prefixed key)
  match reply with
  | .fault f _ => (r, .failed f)
  | .ok => match s.get true key found.data with
    | .error e => (found, .ofStorageErr e)
    | .ok item => (found, .value item)

def redisRemove (r : Server) (reply : Reply) (key : String) : Server × Answer T :=
  match s.remove true key r.data with
  | .error e => (r, .ofStorageErr e)
  | .ok data => (reply.apply r (r.delete data (s.prefixed key)), reply.answer .done)

/-- `RedisStorage[T]`. -/
def redis : Backend Server T where
  call now r a := match a.call with
    | .set key item => redisSet s now r a.reply key item 0
    | .setWithTTL key item expiration => redisSet s now r a.reply key item expiration
    | .get key => redisGet s now r a.reply key
    | .remove key => redisRemove s r a.reply key

/-- The entries under the storage's keys. -/
def Server.view (r : Server) : Contents T := fun key =>
  (r.data.values.get? (s.prefixed key)).bind fun data =>
    (s.codec.unmarshal data).toOption.map fun item => ⟨item, r.expires.get? (s.prefixed key)⟩

/-- Every value under the storage's keys can be read. -/
def Server.Readable (r : Server) : Prop :=
  ∀ key data, r.data.values.get? (s.prefixed key) = some data → ∃ item, s.codec.unmarshal data = .ok item

variable {s} {now : Int} {r : Server} {key : String} {item : T} {data : Redis Unit} {expiration : Int}

theorem view_setExpiry (h : s.setWithTTL true key item r.data = .ok data) :
    (r.setExpiry data now (s.prefixed key) expiration).view s =
      Function.update (r.view s) key (some ⟨item, if 0 < expiration then some (now + expiration) else none⟩) := by
  obtain ⟨raw, hraw, rfl⟩ := RedisStorage.setWithTTL_ok h
  funext key'
  by_cases hkey : key' = key
  · subst hkey
    simp only [Server.view, Server.setExpiry, GoMap.get?_set_self, s.codec.unmarshal_marshal _ _ hraw,
      Function.update_self, Option.bind_some, Except.toOption, Option.map_some]
    split
    · rw [GoMap.get?_set_self]
    · rw [GoMap.get?_delete, if_pos rfl]
  · have hne : s.prefixed key' ≠ s.prefixed key := s.prefixed_injective.ne hkey
    simp only [Server.view, Server.setExpiry, GoMap.get?_set_ne _ hne, Function.update_of_ne hkey]
    split
    · rw [GoMap.get?_set_ne _ hne]
    · rw [GoMap.get?_delete, if_neg hne]

theorem view_serverDelete :
    (r.delete { r.data with values := r.data.values.delete (s.prefixed key) } (s.prefixed key)).view s =
      Function.update (r.view s) key none := by
  funext key'
  simp only [Server.view, Server.delete, GoMap.get?_delete, s.prefixed_injective.eq_iff, Function.update_apply]
  split
  · rfl
  · rfl

theorem readable_setExpiry (hr : r.Readable s) (h : s.setWithTTL true key item r.data = .ok data) :
    (r.setExpiry data now (s.prefixed key) expiration).Readable s := by
  obtain ⟨raw, hraw, rfl⟩ := RedisStorage.setWithTTL_ok h
  intro key' raw' hraw'
  simp only [Server.setExpiry, GoMap.get?_set] at hraw'
  split at hraw'
  · cases hraw'; exact ⟨item, s.codec.unmarshal_marshal _ _ hraw⟩
  · exact hr key' raw' hraw'

theorem readable_serverDelete (hr : r.Readable s) :
    (r.delete { r.data with values := r.data.values.delete (s.prefixed key) } (s.prefixed key)).Readable s := by
  intro key' raw hraw
  simp only [Server.delete, GoMap.get?_delete] at hraw
  split at hraw
  · cases hraw
  · exact hr key' raw hraw

/-- A command drops the value under its key if that is not live. -/
theorem expireIfNeeded_cases (s : RedisStorage T) (r : Server) (now : Int) (key : String) :
    r.expireIfNeeded now (s.prefixed key) = r ∧ (∀ e, r.view s key = some e → e.Live now) ∨
      r.expireIfNeeded now (s.prefixed key) =
          r.delete { r.data with values := r.data.values.delete (s.prefixed key) } (s.prefixed key) ∧
        ∀ e, r.view s key = some e → ¬ e.Live now := by
  have hexpires : ∀ e, r.view s key = some e → e.expiresAt = r.expires.get? (s.prefixed key) := by
    intro e he
    simp only [Server.view, Option.bind_eq_some_iff, Option.map_eq_some_iff] at he
    obtain ⟨_, _, _, _, rfl⟩ := he
    rfl
  unfold Server.expireIfNeeded
  split
  next h =>
    obtain ⟨t, ht, hlt⟩ := (Option.any_eq_true _ _).mp h
    refine .inr ⟨rfl, fun e he hlive => ?_⟩
    have hle : now ≤ t := hlive t (by rw [hexpires e he]; exact ht)
    exact absurd (of_decide_eq_true hlt) (not_lt.mpr hle)
  next h =>
    refine .inl ⟨rfl, fun e he t ht => ?_⟩
    rw [hexpires e he] at ht
    by_contra hlt
    exact h ((Option.any_eq_true _ _).mpr ⟨t, ht, decide_eq_true (not_le.mp hlt)⟩)

theorem redisSet_agrees (reply : Reply) (hr : r.Readable s) {expiresAt : Option Int}
    (hexpires : expiresAt = if 0 < expiration then some (now + expiration) else none) :
    Agrees (Server.view s) (Server.Readable s) now (redisSet s now r reply key item expiration)
      (keep s.codec (r.view s) reply key item expiresAt) := by
  by_cases hkey : key = ""
  · simp only [redisSet, keep, RedisStorage.setWithTTL, hkey, if_true]
    exact .unchanged hr _
  cases hm : s.codec.marshal item with
  | error e =>
    simp only [redisSet, keep, RedisStorage.setWithTTL, hkey, hm, if_false]
    exact .unchanged hr _
  | ok raw =>
    have hset : s.setWithTTL true key item r.data =
        .ok { r.data with values := r.data.values.set (s.prefixed key) raw } := by
      simp only [RedisStorage.setWithTTL, hkey, hm, if_false, Redis.set, if_true]
    simp only [redisSet, keep, hset, hkey, hm, if_false]
    exact .reply reply hr (readable_setExpiry hr hset) (hexpires ▸ view_setExpiry hset) _

theorem get_view (hr : r.Readable s) (key : String) :
    s.get true key r.data = (r.view s key).elim (.error .notFound) fun e => .ok e.value := by
  cases hraw : r.data.values.get? (s.prefixed key) with
  | none => simp only [RedisStorage.get, Redis.get, if_true, Server.view, hraw, Option.bind_none, Option.elim_none]
  | some raw =>
    obtain ⟨item, hitem⟩ := hr key raw hraw
    simp only [RedisStorage.get, Redis.get, if_true, Server.view, hraw, hitem, Option.bind_some, Except.toOption,
      Option.map_some, Option.elim_some]

theorem redisGet_agrees (reply : Reply) (hr : r.Readable s) :
    Agrees (Server.view s) (Server.Readable s) now (redisGet s now r reply key)
      (r.view s, reply.answer (.ofOption (Expiry.get (r.view s) now key))) := by
  cases reply with
  | fault f applied => exact .unchanged hr _
  | ok =>
    simp only [redisGet, Reply.answer, Expiry.get]
    rcases expireIfNeeded_cases s r now key with ⟨heq, hlive⟩ | ⟨heq, hdead⟩
    · rw [heq, get_view hr]
      cases he : r.view s key with
      | none => exact .unchanged hr _
      | some e =>
        simp only [Option.elim_some, Option.bind_some, if_pos (hlive e he)]
        exact .unchanged hr _
    · have hgone : (r.view s key).bind (fun e => if e.Live now then some e.value else none) = none := by
        cases he : r.view s key with
        | none => rfl
        | some e => exact if_neg (hdead e he)
      have hr' := @readable_serverDelete _ s r key hr
      rw [heq, get_view hr', view_serverDelete, Function.update_self, hgone]
      exact ⟨rfl, view_serverDelete ▸ (Expiry.Lazy.refl _).expire hdead, hr'⟩

theorem redisRemove_agrees (reply : Reply) (hr : r.Readable s) :
    Agrees (Server.view s) (Server.Readable s) now (redisRemove s r reply key)
      (reply.apply (r.view s) (Function.update (r.view s) key none), reply.answer .done) := by
  simp only [redisRemove, RedisStorage.remove, Redis.del, if_true]
  exact .reply reply hr (readable_serverDelete hr) view_serverDelete _

theorem redis_keeps (s : RedisStorage T) (horizon : Int) :
    Keeps s.codec horizon (redis s) (Server.view s) (Server.Readable s) := by
  intro now r a hnow htimed hr
  cases hc : a.call with
  | set key item =>
    simp only [redis, reference, hc]
    exact redisSet_agrees a.reply hr rfl
  | setWithTTL key item expiration =>
    rw [hc] at htimed
    simp only [redis, reference, hc]
    exact redisSet_agrees a.reply hr (if_pos htimed.1).symm
  | get key =>
    simp only [redis, reference, hc]
    exact redisGet_agrees a.reply hr
  | remove key =>
    simp only [redis, reference, hc]
    exact redisRemove_agrees a.reply hr

end Redis

/-! ## The bucket -/

section Gcs

variable {T : Type} (g : GCSStorage T)

/-- `write`, with the upload of what it built. -/
def gcsWrite (b : Bucket) (reply : Reply) (key : String) (doc : Except GcsErr Bytes) : Bucket × Answer T :=
  match doc with
  | .error e => (b, .ofGcsErr e)
  | .ok raw => (reply.apply b (b.upload (g.object key) raw), reply.answer .done)

/-- `Get`, with the delete of what it found expired. -/
def gcsGet (now : Int) (b : Bucket) (reply : Reply) (cleaned : Bool) (key : String) : Bucket × Answer T :=
  match reply with
  | .fault f _ => (b, .failed f)
  | .ok => match b.objects.get? (g.object key) with
    | none => (b, .notFound)
    | some o => match g.check key o.raw now with
      | .error e => (b, .ofGcsErr e)
      | .ok none => (if cleaned then b.deleteGeneration (g.object key) o.generation else b, .notFound)
      | .ok (some item) => (b, .value item)

/-- `GCSStorage[T]`. -/
def gcs : Backend Bucket T where
  call now b a := match a.call with
    | .set key item => gcsWrite g b a.reply key (g.set key item)
    | .setWithTTL key item expiration => gcsWrite g b a.reply key (g.setWithTTL now key item expiration)
    | .get key => gcsGet g now b a.reply a.cleaned key
    | .remove key => (a.reply.apply b (b.delete (g.object key)), a.reply.answer .done)

/-- Every object under the storage's names can be read. -/
def Legible (b : Bucket) : Prop :=
  ∀ key o, b.objects.get? (g.object key) = some o → ∃ e, g.entry o.raw = some e

/-- An envelope whose expiration is not past the horizon has a JSON form:
`time.Time` has one up to the year 9999. -/
def Envelopes (horizon : Int) : Prop :=
  ∀ data expiresAt, 0 ≤ expiresAt → expiresAt ≤ horizon → ∃ raw, g.docs.marshal ⟨data, expiresAt⟩ = .ok raw

variable {g} {now horizon : Int} {b : Bucket} {key : String} {item : T}

theorem legible_delete (hb : Legible g b) : Legible g (b.delete (g.object key)) :=
  fun key' o ho => hb key' o (Bucket.get?_of_delete ho)

theorem legible_upload {raw : Bytes} {e : Expiry.Entry T Int} (hb : Legible g b) (hraw : g.entry raw = some e) :
    Legible g (b.upload (g.object key) raw) := by
  intro key' o ho
  simp only [Bucket.upload, GoMap.get?_set] at ho
  split at ho
  · cases ho; exact ⟨e, hraw⟩
  · exact hb key' o ho

theorem gcsWrite_agrees {ends : Int} {expiresAt : Option Int} (henv : Envelopes g horizon) (hpos : 0 ≤ ends)
    (hle : ends ≤ horizon) (hat : (if ends = 0 then none else some ends) = expiresAt) (reply : Reply)
    (hb : Legible g b) :
    Agrees (Gcs.view g) (Legible g) now (gcsWrite g b reply key (g.write key item ends))
      (keep g.codec (Gcs.view g b) reply key item expiresAt) := by
  by_cases hkey : key = ""
  · simp only [gcsWrite, keep, GCSStorage.write, hkey, if_true]
    exact .unchanged hb _
  cases hm : g.codec.marshal item with
  | error e =>
    simp only [gcsWrite, keep, GCSStorage.write, hkey, hm, if_false]
    exact .unchanged hb _
  | ok data =>
    obtain ⟨raw, hraw⟩ := henv data ends hpos hle
    have hwrite : g.write key item ends = .ok raw := by
      simp only [GCSStorage.write, hkey, hm, hraw, if_false]
    have hentry : g.entry raw = some ⟨item, expiresAt⟩ := hat ▸ GCSStorage.entry_write hwrite
    simp only [gcsWrite, keep, hwrite, hkey, hm, if_false]
    exact .reply reply hb (legible_upload hb hentry) (Gcs.view_upload hentry) _

theorem gcsGet_agrees (reply : Reply) (cleaned : Bool) (hb : Legible g b) :
    Agrees (Gcs.view g) (Legible g) now (gcsGet g now b reply cleaned key)
      (Gcs.view g b, reply.answer (.ofOption (Expiry.get (Gcs.view g b) now key))) := by
  cases reply with
  | fault f applied => exact .unchanged hb _
  | ok =>
    simp only [gcsGet, Reply.answer, Expiry.get]
    cases ho : b.objects.get? (g.object key) with
    | none =>
      simp only [Gcs.view, ho, Option.bind_none]
      exact .unchanged hb _
    | some o =>
      obtain ⟨e, he⟩ := hb key o ho
      have hview : Gcs.view g b key = some e := by rw [Gcs.view, ho, Option.bind_some, he]
      have hcheck : g.check key o.raw now = _ := GCSStorage.check_entry he
      by_cases hlive : e.Live now
      · rw [if_pos hlive] at hcheck
        simp only [hcheck, hview, Option.bind_some, if_pos hlive]
        exact .unchanged hb _
      · rw [if_neg hlive] at hcheck
        simp only [hcheck, hview, Option.bind_some, if_neg hlive]
        have hdelete : b.deleteGeneration (g.object key) o.generation = b.delete (g.object key) := by
          simp [Bucket.deleteGeneration, ho]
        cases cleaned with
        | false => exact .unchanged hb _
        | true =>
          rw [if_pos rfl, hdelete]
          refine ⟨rfl, Gcs.view_delete ▸ (Expiry.Lazy.refl _).expire fun e' he' => ?_, legible_delete hb⟩
          cases hview.symm.trans he'
          exact hlive

theorem gcs_keeps (henv : Envelopes g horizon) (hhorizon : 0 ≤ horizon) :
    Keeps g.codec horizon (gcs g) (Gcs.view g) (Legible g) := by
  intro now b a hnow htimed hb
  cases hc : a.call with
  | set key item =>
    simp only [gcs, reference, hc]
    exact gcsWrite_agrees henv le_rfl hhorizon rfl a.reply hb
  | setWithTTL key item expiration =>
    rw [hc] at htimed
    have hne : now + expiration ≠ 0 := by have := htimed.1; omega
    simp only [gcs, reference, hc]
    exact gcsWrite_agrees henv (by have := htimed.1; omega) htimed.2 (if_neg hne) a.reply hb
  | get key =>
    simp only [gcs, reference, hc]
    exact gcsGet_agrees a.reply a.cleaned hb
  | remove key =>
    simp only [gcs, reference, hc]
    exact .reply a.reply hb (legible_delete hb) Gcs.view_delete _

end Gcs

/-! ## Metrics -/

/-- The `operation` label. -/
inductive Operation
  | set
  | setWithTTL
  | get
  | remove
  deriving DecidableEq, Repr

/-- The `outcome` label. -/
inductive Outcome
  | success
  | notFound
  | cancelled
  | timeout
  | error
  deriving DecidableEq, Repr

/-- What `Observe` is called with, but for the latency; `label` is its
`namespace`. -/
structure Observation where
  backend : String
  label : String
  operation : Operation
  outcome : Outcome
  deriving DecidableEq, Repr

section Metrics

variable {σ T : Type}

/-- The label of a call in the metrics. -/
def Call.operation : Call T → Operation
  | .set _ _ => .set
  | .setWithTTL _ _ _ => .setWithTTL
  | .get _ => .get
  | .remove _ => .remove

/-- A deadline that was over before the call is the caller's. -/
def outcome (answer : Answer T) (preExpired : Bool) : Outcome :=
  match answer with
  | .done | .value _ => .success
  | .notFound => .notFound
  | .failed .canceled => .cancelled
  | .failed .deadlineExceeded => if preExpired then .cancelled else .timeout
  | _ => .error

variable (backend label : String)

/-- What the observer records of a call. -/
def observe (a : Ask T) (answer : Answer T) : Observation :=
  ⟨backend, label, a.call.operation, outcome answer a.preExpired⟩

/-- `instrumentedStorage[T]`: every call goes to the storage inside, and its
outcome to the observer. -/
def instrumented (inner : Backend σ T) : Backend (σ × List Observation) T where
  call now s a :=
    let res := inner.call now s.1 a
    ((res.1, s.2 ++ [observe backend label a res.2]), res.2)

theorem instrumented_call (b : Backend σ T) (now : Int) (s : σ) (log : List Observation) (a : Ask T) :
    (instrumented backend label b).call now (s, log) a =
      (((b.call now s a).1, log ++ [observe backend label a (b.call now s a).2]), (b.call now s a).2) := rfl

theorem instrumented_run (b : Backend σ T) (now : Int) (s : σ) (log : List Observation) (asks : List (Ask T)) :
    (instrumented backend label b).run now (s, log) asks =
      (((b.run now s asks).1, log ++ List.zipWith (observe backend label) asks (b.run now s asks).2),
        (b.run now s asks).2) := by
  induction asks generalizing now s log with
  | nil => simp only [Backend.run, List.zipWith_nil_left, List.append_nil]
  | cons a asks ih =>
    simp only [Backend.run, instrumented_call, ih, List.zipWith_cons_cons, List.append_assoc, List.singleton_append]

end Metrics

/-! ## The backends agree -/

section Agreement

variable {σ T : Type}

/-- The calls are answered so, with metrics or without, and the metrics say
how. -/
structure Serves (b : Backend σ T) (now : Int) (s : σ) (asks : List (Ask T)) (answers : List (Answer T)) : Prop where
  plain : (b.run now s asks).2 = answers
  metered : ∀ backend label, ((instrumented backend label b).run now (s, []) asks).2 = answers
  observed : ∀ backend label, ((instrumented backend label b).run now (s, []) asks).1.2 =
    List.zipWith (observe backend label) asks answers

theorem serves_of_run {b : Backend σ T} {now : Int} {s : σ} {asks : List (Ask T)} {answers : List (Answer T)}
    (h : (b.run now s asks).2 = answers) : Serves b now s asks answers := by
  refine ⟨h, fun backend label => ?_, fun backend label => ?_⟩
  · rw [instrumented_run]
    exact h
  · rw [instrumented_run, h]
    rfl

/-- **The backends agree.** From empty ones on, whatever is called, with a TTL
that is positive, and whichever commands fail, Redis and the bucket give the
answers of a map with an expiry per entry, with metrics or without, whatever
other storages keep beside them; and the metrics of the one are those of the
other. An expired object that cannot be deleted changes nothing. -/
theorem backends_agree (s : RedisStorage T) (g : GCSStorage T) (hcodec : g.codec = s.codec) {horizon now : Int}
    (henv : Envelopes g horizon) (hnow : 0 ≤ now) (hhorizon : now ≤ horizon) {r : Server} {b : Bucket}
    (hr : ∀ key, r.data.values.get? (s.prefixed key) = none) (hb : ∀ key, b.objects.get? (g.object key) = none)
    {asks : List (Ask T)} (htimed : Timed horizon now asks) :
    Serves (redis s) now r asks ((reference s.codec).run now (fun _ => none) asks).2 ∧
      Serves (gcs g) now b asks ((reference s.codec).run now (fun _ => none) asks).2 := by
  constructor
  · have hview : r.view s = fun _ => none := by
      funext key
      rw [Server.view, hr key, Option.bind_none]
    refine serves_of_run ((redis_keeps s horizon).run hnow htimed (fun key data hdata => ?_) (hview ▸ .refl _))
    cases (hr key).symm.trans hdata
  · have hview : Gcs.view g b = fun _ => none := by
      funext key
      rw [Gcs.view, hb key, Option.bind_none]
    rw [← hcodec]
    refine serves_of_run ((gcs_keeps henv (hnow.trans hhorizon)).run hnow htimed (fun key o ho => ?_)
      (hview ▸ .refl _))
    cases (hb key).symm.trans ho

end Agreement

/-- Envelopes with the expiration as one byte. -/
def shortEnvelopes : Codec GcsDoc where
  marshal doc := if 0 ≤ doc.expiresAt ∧ doc.expiresAt < 256 then .ok (UInt8.ofNat doc.expiresAt.toNat :: doc.data)
    else .error "too late"
  unmarshal
    | [] => .error "empty"
    | expiresAt :: data => .ok ⟨data, expiresAt.toNat⟩
  unmarshal_marshal doc raw h := by
    split at h
    next hlt =>
      cases h
      have hn : (UInt8.ofNat doc.expiresAt.toNat).toNat = doc.expiresAt.toNat := by
        rw [UInt8.toNat_ofNat', Nat.mod_eq_of_lt (by omega)]
      simp only [hn, Int.toNat_of_nonneg hlt.1]
    next => cases h

/-- A Redis storage of letters. -/
def letters : RedisStorage Char := ⟨"letters", .ofTable ['a', 'b']⟩

def letterObjects : GCSStorage Char := ⟨"letters", .ofTable ['a', 'b'], shortEnvelopes⟩

/-- A value is read up to its expiry and not after, when the object stays; a
write that times out is applied; an empty key and a value without a JSON form
are refused. -/
def lettersRun : List (Ask Char) :=
  [⟨0, .setWithTTL "k" 'a' 5, .ok, true, false⟩, ⟨5, .get "k", .ok, true, false⟩, ⟨1, .get "k", .ok, false, false⟩,
    ⟨0, .set "k" 'b', .fault .deadlineExceeded true, true, true⟩, ⟨100, .get "k", .ok, true, false⟩,
    ⟨0, .remove "k", .ok, true, false⟩, ⟨0, .get "k", .ok, true, false⟩, ⟨0, .set "" 'a', .ok, true, false⟩,
    ⟨0, .set "k" 'c', .ok, true, false⟩]

theorem backends_agree_letters :
    Serves (redis letters) 10 ⟨.empty, ∅⟩ lettersRun
        [.done, .value 'a', .notFound, .failed .deadlineExceeded, .value 'b', .done, .notFound, .emptyKey,
          .marshaling "not in the table"] ∧
      Serves (gcs letterObjects) 10 ⟨∅, 1⟩ lettersRun
        [.done, .value 'a', .notFound, .failed .deadlineExceeded, .value 'b', .done, .notFound, .emptyKey,
          .marshaling "not in the table"] := by
  have hanswers : ((reference letters.codec).run 10 (fun _ => none) lettersRun).2 =
      [.done, .value 'a', .notFound, .failed .deadlineExceeded, .value 'b', .done, .notFound, .emptyKey,
        .marshaling "not in the table"] := by decide +kernel
  have henv : Envelopes letterObjects 255 := fun data expiresAt hpos hle =>
    ⟨UInt8.ofNat expiresAt.toNat :: data, if_pos ⟨hpos, Int.lt_add_one_of_le hle⟩⟩
  rw [← hanswers]
  exact backends_agree letters letterObjects rfl henv (by decide) (by decide) (fun _ => rfl) (fun _ => rfl)
    (by decide +kernel)

end TeeProxy.Backends
