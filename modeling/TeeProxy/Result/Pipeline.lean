/-
A result's whole way: `ProcessAndStore`, the result storage, and the event
loop of the wallet service at the other end of `KeyActions`.

`ProcessAndStore` passes a result on before `StoreResponse` has looked
whether it is new. Its check, its hooks and its storing are steps of their
own, between which the other calls, the event loop and the expiry of what is
stored go on.
-/
import TeeProxy.Queue.ActionQueues
import TeeProxy.Result.Process
import TeeProxy.Wallets.Races

namespace TeeProxy.Result

/-- The key of a response in the storage, `ActionSubmissionID.String`. -/
def submissionID (r : ActionResponse) : Queue.ActionSubmissionID := ⟨r.result.id, r.result.submissionTag, 0⟩

/-- The string tells the pair (`Queue.ActionSubmissionID.string_eq_iff`), so the
pair stands for the key. -/
def pairOf (r : ActionResponse) : Queue.Pair := (submissionID r).pair

/-- `Get` of the storage, whose command may fail. -/
def getResponse (stored : GoMap Queue.Pair ActionResponse) (ok : Bool) (id : Queue.Pair) :
    Except StorageErr ActionResponse :=
  if ok then
    match stored.get? id with
    | none => .error .notFound
    | some res => .ok res
  else .error (.getting (⟨id.1, id.2, 0⟩ : Queue.ActionSubmissionID).string)

/-- `SetWithTTL` of the storage. -/
def setResponse (ok : Bool) (r : ActionResponse) : Except StorageErr Unit :=
  if ok then .ok () else .error (.setting (submissionID r).string)

/-- The service, what is stored, and the wallet cache. Of the past: the
responses ever stored. -/
structure Pipeline where
  service : State
  stored : GoMap Queue.Pair ActionResponse
  cache : Wallets.Cache
  history : List ActionResponse

/-- `expire` is the TTL of a stored response; `receive .keyActions` is a turn
of the wallet service's event loop. -/
inductive Delivery
  | setIdentity (teeID : Address)
  | process (r : ActionResponse)
  | passOn (n : Nat)
  | store (n : Nat) (getOk setOk : Bool)
  | expire (id : Queue.Pair)
  | receive (c : Channel)

namespace Pipeline

/-- What the storage answers when asked for the key of `r`. -/
def lookup (s : Pipeline) (ok : Bool) (r : ActionResponse) : Except StorageErr (Option ActionResponse) :=
  (getResponse s.stored ok (pairOf r)).map some

section System

variable (op : OpPkg) (pkg : SigningPkg) (chainID : UInt64) (wallets : Wallets.WalletPkg)

/-- A step of the service; a response that passes the guard is stored, and a key
result that is received is applied to the cache. -/
def step (s : Pipeline) : Delivery → Option Pipeline
  | .setIdentity teeID => (Result.step op pkg chainID s.service (.setIdentity teeID)).map fun service =>
      { s with service }
  | .process r => (Result.step op pkg chainID s.service (.process r)).map fun service => { s with service }
  | .passOn n => (Result.step op pkg chainID s.service (.passOn n)).map fun service => { s with service }
  | .store n getOk setOk => match s.service.calls[n]? with
    | none => none
    | some c =>
      let existing := s.lookup getOk c.response
      let written := setResponse setOk c.response
      match Result.step op pkg chainID s.service (.store n existing written) with
      | none => none
      | some service => match storeResponse existing written c.response with
        | .error _ => some { s with service }
        | .ok () => some { s with
            service
            stored := s.stored.set (pairOf c.response) c.response
            history := s.history ++ [c.response] }
  | .expire id => some { s with stored := s.stored.delete id }
  | .receive c => match s.service.onChannels.find? (·.channel = c) with
    | none => none
    | some m => match Result.step op pkg chainID s.service (.receive c) with
      | none => none
      | some service => match c with
        | .keyActions => some { s with service, cache := (s.cache.update op wallets m.response.result).1 }
        | .backups | .backupTrigger => some { s with service }

/-- A new service, whatever the wallet cache holds. -/
def system : Lts.System Pipeline Delivery where
  init s := ∃ cache, s = ⟨start, ∅, cache, []⟩
  step := step op pkg chainID wallets

end System

/-- The channel takes another message. -/
def Room (s : Pipeline) (c : Channel) : Prop := (s.service.onChannels.filter (·.channel = c)).length < c.size

instance (s : Pipeline) (c : Channel) : Decidable (s.Room c) :=
  inferInstanceAs (Decidable ((s.service.onChannels.filter (·.channel = c)).length < c.size))

/-- What a call puts on a channel: a result without hook is not passed on, and
a message for a full channel is dropped. -/
def passedOn (op : OpPkg) (s : Pipeline) (number : Nat) (r : ActionResponse) : List Message :=
  match hook op r.result with
  | none => []
  | some c => if s.Room c then [⟨c, number, r⟩] else []

theorem passedOn_of_room {op : OpPkg} {s : Pipeline} {number : Nat} {r : ActionResponse} {c : Channel}
    (hh : hook op r.result = some c) (hroom : s.Room c) : passedOn op s number r = [⟨c, number, r⟩] := by
  simp only [passedOn, hh, if_pos hroom]

theorem passedOn_eq_nil_iff {op : OpPkg} {s : Pipeline} {number : Nat} {r : ActionResponse} :
    passedOn op s number r = [] ↔ ∀ c ∈ hook op r.result, ¬ s.Room c := by
  cases hh : hook op r.result with
  | none => simp [passedOn, hh]
  | some c => simp [passedOn, hh]

theorem passedOn_cases (op : OpPkg) (s : Pipeline) (number : Nat) (r : ActionResponse) :
    passedOn op s number r = [] ∨ ∃ c, passedOn op s number r = [⟨c, number, r⟩] := by
  by_cases h : ∀ c ∈ hook op r.result, ¬ s.Room c
  · exact .inl (passedOn_eq_nil_iff.mpr h)
  · simp only [not_forall, not_not] at h
    obtain ⟨c, hh, hroom⟩ := h
    exact .inr ⟨c, passedOn_of_room hh hroom⟩

theorem call_of_passedOn {op : OpPkg} {s : Pipeline} {number : Nat} {r : ActionResponse} {x : Message}
    (hx : x ∈ passedOn op s number r) : x.call = number := by
  rcases passedOn_cases op s number r with h | ⟨c, h⟩
  · rw [h] at hx; cases hx
  · rw [h] at hx; rw [List.mem_singleton.mp hx]

/-- A message for `c` is passed on only where the channel takes it. -/
def Passes (op : OpPkg) (c : Channel) (s : Pipeline) : Delivery → Prop
  | .passOn n => ∀ call ∈ s.service.calls[n]?, hook op call.response.result = some c → s.Room c
  | _ => True

instance (op : OpPkg) (c : Channel) (s : Pipeline) : DecidablePred (Passes op c s)
  | .passOn n =>
    inferInstanceAs (Decidable (∀ call ∈ s.service.calls[n]?, hook op call.response.result = some c → s.Room c))
  | .setIdentity _ | .process _ | .store _ _ _ | .expire _ | .receive _ => .isTrue trivial

/-! ## Runs -/

section Runs

variable {op : OpPkg} {pkg : SigningPkg} {chainID : UInt64} {wallets : Wallets.WalletPkg} {s s' : Pipeline}
  {ok : Pipeline → Delivery → Prop}

/-- A step is a step of the service or leaves it alone; what it stores is the
response of a call. -/
theorem step_service {e : Delivery} (h : step op pkg chainID wallets s e = some s') :
    (s'.service = s.service ∨ ∃ f, Result.step op pkg chainID s.service f = some s'.service) ∧
      ∀ r ∈ s'.history, r ∈ s.history ∨ ∃ c ∈ s.service.calls, c.response = r := by
  have hmap : ∀ f, (Result.step op pkg chainID s.service f).map (fun service => { s with service }) = some s' →
      (s'.service = s.service ∨ ∃ f, Result.step op pkg chainID s.service f = some s'.service) ∧
        ∀ r ∈ s'.history, r ∈ s.history ∨ ∃ c ∈ s.service.calls, c.response = r := by
    intro f hf
    obtain ⟨service, hs, rfl⟩ := Option.map_eq_some_iff.mp hf
    exact ⟨.inr ⟨f, hs⟩, fun r hr => .inl hr⟩
  cases e with
  | setIdentity teeID => exact hmap _ h
  | process r => exact hmap _ h
  | passOn n => exact hmap _ h
  | store n getOk setOk =>
    simp only [step] at h
    split at h
    · cases h
    next c hc =>
    split at h
    · cases h
    next hs =>
    split at h
    · cases h
      exact ⟨.inr ⟨_, hs⟩, fun r hr => .inl hr⟩
    · cases h
      refine ⟨.inr ⟨_, hs⟩, fun r hr => ?_⟩
      rcases List.mem_append.mp hr with hr | hr
      · exact .inl hr
      · exact .inr ⟨c, List.mem_of_getElem? hc, (List.mem_singleton.mp hr).symm⟩
  | expire id =>
    cases h
    exact ⟨.inl rfl, fun r hr => .inl hr⟩
  | receive c =>
    simp only [step] at h
    split at h
    · cases h
    split at h
    · cases h
    next hs => split at h <;> cases h <;> exact ⟨.inr ⟨_, hs⟩, fun r hr => .inl hr⟩

/-- The response passes the checks of `ProcessAndStore` now. -/
def Accepts (op : OpPkg) (pkg : SigningPkg) (chainID : UInt64) (s : Pipeline) (r : ActionResponse) : Prop :=
  r.result.id ≠ 0 ∧ checkSigner op pkg chainID s.service.teeID r = .ok ()

instance (r : ActionResponse) : Decidable (Accepts op pkg chainID s r) :=
  inferInstanceAs (Decidable (r.result.id ≠ 0 ∧ checkSigner op pkg chainID s.service.teeID r = .ok ()))

/-- **Everything a step can do.** -/
inductive Step (op : OpPkg) (pkg : SigningPkg) (chainID : UInt64) (wallets : Wallets.WalletPkg) (s : Pipeline) :
    Delivery → Pipeline → Prop
  | identified {id teeID} : Step op pkg chainID wallets s (.setIdentity id) { s with
      service := { s.service with teeID } }
  | turnedAway {r} : ¬ Accepts op pkg chainID s r → Step op pkg chainID wallets s (.process r) { s with
      service := { s.service with requests := s.service.requests ++ [r] } }
  | accepted {r} : Accepts op pkg chainID s r → Step op pkg chainID wallets s (.process r) { s with
      service := { s.service with
        requests := s.service.requests ++ [r]
        calls := s.service.calls ++ [⟨s.service.requests.length, r, false⟩] } }
  | passedOn {n number r} : s.service.calls[n]? = some ⟨number, r, false⟩ →
      Step op pkg chainID wallets s (.passOn n) { s with
        service := { s.service with
          calls := s.service.calls.set n ⟨number, r, true⟩
          onChannels := s.service.onChannels ++ passedOn op s number r
          sent := s.service.sent ++ passedOn op s number r } }
  | stored {n number r getOk setOk lastStorageErr written stored history} :
      s.service.calls[n]? = some ⟨number, r, true⟩ →
      Step op pkg chainID wallets s (.store n getOk setOk) { s with
        service := { s.service with calls := s.service.calls.eraseIdx n, lastStorageErr, written }
        stored, history }
  | expired {id} : Step op pkg chainID wallets s (.expire id) { s with stored := s.stored.delete id }
  | received {c m cache} : s.service.onChannels.find? (·.channel = c) = some m →
      cache = (if c = .keyActions then (s.cache.update op wallets m.response.result).1 else s.cache) →
      Step op pkg chainID wallets s (.receive c) { s with
        service := { s.service with onChannels := s.service.onChannels.eraseP (·.channel = c) }
        cache }

theorem step_inv {e : Delivery} (h : step op pkg chainID wallets s e = some s') :
    Step op pkg chainID wallets s e s' := by
  cases e with
  | setIdentity teeID =>
    obtain ⟨service, hs, rfl⟩ := Option.map_eq_some_iff.mp h
    simp only [Result.step] at hs
    split at hs
    · split at hs <;> cases hs <;> exact .identified
    · cases hs
  | process r =>
    obtain ⟨service, hs, rfl⟩ := Option.map_eq_some_iff.mp h
    simp only [Result.step] at hs
    split at hs
    next hid => cases hs; exact .turnedAway fun ha => ha.1 hid
    next hid =>
    split at hs
    next hc =>
      cases hs
      refine .turnedAway fun ha => ?_
      rw [ha.2] at hc
      cases hc
    next hc => cases hs; exact .accepted ⟨hid, hc⟩
  | passOn n =>
    obtain ⟨service, hs, rfl⟩ := Option.map_eq_some_iff.mp h
    simp only [Result.step] at hs
    split at hs
    next number r hn =>
      have hstep : Step op pkg chainID wallets s (.passOn n) _ := .passedOn hn
      split at hs
      next hh =>
        cases hs
        rw [passedOn_eq_nil_iff.mpr (by simp [hh])] at hstep
        simpa using hstep
      next c hh =>
        split at hs
        next hroom =>
          cases hs
          rw [passedOn_of_room hh hroom] at hstep
          exact hstep
        next hfull =>
          cases hs
          have hfull : ¬ s.Room c := hfull
          rw [passedOn_eq_nil_iff.mpr (by simpa [hh] using hfull)] at hstep
          simpa using hstep
    next => cases hs
  | store n getOk setOk =>
    simp only [step, Result.step] at h
    split at h
    · cases h
    next c hc =>
    split at h
    · cases h
    next service hs =>
    split at hs
    next number r hn =>
      split at hs <;> cases hs <;> split at h <;> cases h <;> exact .stored hn
    next => cases hs
  | expire id => cases h; exact .expired
  | receive c =>
    simp only [step, Result.step] at h
    split at h
    · cases h
    next m hm =>
    split at h
    · cases h
    next service hs =>
    split at hs
    · cases hs
      split at h <;> cases h <;> exact .received hm rfl
    · cases hs

/-! ### The event loop -/

/-- The results of the messages for `KeyActions`, in their order. -/
def keyResults (messages : List Message) : List ActionResult :=
  (messages.filter (·.channel = .keyActions)).map (·.response.result)

/-- The cache after the event loop has applied the results in turn. -/
def applied (op : OpPkg) (wallets : Wallets.WalletPkg) (cache : Wallets.Cache) (results : List ActionResult) :
    Wallets.Cache :=
  results.foldl (fun cache r => (cache.update op wallets r).1) cache

/-- The messages that are waiting would bring the cache to where the messages
ever sent bring the cache of the start. -/
def Drains (op : OpPkg) (wallets : Wallets.WalletPkg) (cache₀ : Wallets.Cache) (s : Pipeline) : Prop :=
  applied op wallets s.cache (keyResults s.service.onChannels) =
    applied op wallets cache₀ (keyResults s.service.sent)

/-- A receive from `c` takes its first message and no other. -/
theorem filter_eraseP_channel (c c' : Channel) (l : List Message) :
    (l.eraseP (·.channel = c)).filter (·.channel = c') =
      if c = c' then (l.filter (·.channel = c')).tail else l.filter (·.channel = c') := by
  induction l with
  | nil => simp
  | cons m l ih =>
    by_cases hm : m.channel = c
    · by_cases hc : c = c'
      · simp [hm, hc]
      · simp [hm, hc]
    · by_cases hc : c = c'
      · subst hc
        simpa [hm, List.filter_cons] using ih
      · rw [if_neg hc] at ih
        simp [hm, hc, List.filter_cons, ih]

theorem Drains.step {cache₀ : Wallets.Cache} {e : Delivery} (h : Drains op wallets cache₀ s)
    (hs : Step op pkg chainID wallets s e s') : Drains op wallets cache₀ s' := by
  cases hs with
  | identified | turnedAway | accepted | stored | expired => exact h
  | @passedOn n number r hn =>
    simp only [Drains, keyResults, applied, List.filter_append, List.map_append, List.foldl_append] at h ⊢
    rw [h]
  | @received c m cache hm hcache =>
    simp only [Drains, keyResults, filter_eraseP_channel] at h ⊢
    split
    next hc =>
      subst hc hcache
      rw [if_pos rfl, ← h]
      obtain ⟨rest, hrest⟩ : ∃ rest, s.service.onChannels.filter (·.channel = .keyActions) = m :: rest := by
        rw [← List.head?_filter] at hm
        exact ⟨_, (List.cons_head?_tail hm).symm⟩
      simp [hrest, applied]
    next hc =>
      rw [hcache, if_neg hc]
      exact h

theorem reach_service (h : Lts.Reach (system op pkg chainID wallets) ok s) :
    Lts.Reach (Result.system op pkg chainID) Lts.Free s.service := by
  refine h.simulation Pipeline.service ?_ ?_
  · rintro s ⟨cache, rfl⟩
    exact rfl
  · intro s e s' _ _ _ hs
    exact (step_service hs).1.imp id fun ⟨f, hf⟩ => ⟨f, trivial, hf⟩

/-! ### One message per call -/

/-- The calls have different numbers, a call sends at most one message, and
none before its hooks. -/
structure Numbered (s : Pipeline) : Prop where
  calls : (s.service.calls.map Call.number).Nodup
  sent : (s.service.sent.map Message.call).Nodup
  unsent : ∀ c ∈ s.service.calls, c.hooked = false → ∀ x ∈ s.service.sent, x.call ≠ c.number

theorem mem_set_unhooked {calls : List Call} {n number : Nat} {r : ActionResponse} {c : Call}
    (hnum : (calls.map Call.number).Nodup) (hn : calls[n]? = some ⟨number, r, false⟩)
    (hc : c ∈ calls.set n ⟨number, r, true⟩) (hf : c.hooked = false) : c ∈ calls ∧ c.number ≠ number := by
  obtain ⟨j, hj⟩ := List.mem_iff_getElem?.mp hc
  rw [List.getElem?_set] at hj
  split at hj
  · split at hj
    · cases hj; cases hf
    · cases hj
  next hne =>
    refine ⟨List.mem_of_getElem? hj, fun heq => hne ?_⟩
    have hlt : n < (calls.map Call.number).length := by
      rw [List.length_map]
      exact (List.getElem?_eq_some_iff.mp hn).1
    rw [← List.getElem?_inj hlt hnum, List.getElem?_map, List.getElem?_map, hn, hj]
    simp [heq]

theorem map_number_set {calls : List Call} {n number : Nat} {r : ActionResponse}
    (hn : calls[n]? = some ⟨number, r, false⟩) :
    (calls.set n ⟨number, r, true⟩).map Call.number = calls.map Call.number := by
  rw [List.map_set]
  refine List.ext_getElem? fun j => ?_
  rw [List.getElem?_set]
  split
  next heq =>
    subst heq
    rw [List.length_map, if_pos (List.getElem?_eq_some_iff.mp hn).1, List.getElem?_map, hn]
    rfl
  next => rfl

theorem Numbered.step {e : Delivery} (h : Numbered s) (ha : Authentic op pkg chainID s.service)
    (hs : Step op pkg chainID wallets s e s') : Numbered s' := by
  have hcall : ∀ c ∈ s.service.calls, c.number < s.service.requests.length :=
    fun c hc => (List.getElem?_eq_some_iff.mp (ha.calls c hc).1).1
  have hsent : ∀ x ∈ s.service.sent, x.call < s.service.requests.length :=
    fun x hx => (List.getElem?_eq_some_iff.mp (ha.sent x hx).1).1
  cases hs with
  | identified | turnedAway | expired | received => exact ⟨h.calls, h.sent, h.unsent⟩
  | @accepted r hr =>
    refine ⟨?_, h.sent, fun c hc hf x hx => ?_⟩
    · simp only [List.map_append, List.map_cons, List.map_nil]
      refine List.nodup_append.mpr ⟨h.calls, List.nodup_singleton _, fun a hmem b hb => ?_⟩
      obtain ⟨c, hc, rfl⟩ := List.mem_map.mp hmem
      rw [List.mem_singleton.mp hb]
      exact Nat.ne_of_lt (hcall c hc)
    · rcases List.mem_append.mp hc with hc | hc
      · exact h.unsent c hc hf x hx
      · rw [List.mem_singleton.mp hc]
        exact Nat.ne_of_lt (hsent x hx)
  | @passedOn n number r hn =>
    have hnew : ∀ x ∈ s.service.sent, x.call ≠ number := h.unsent _ (List.mem_of_getElem? hn) rfl
    refine ⟨?_, ?_, fun c hc hf x hx => ?_⟩
    · dsimp only
      rw [map_number_set hn]
      exact h.calls
    · simp only [List.map_append]
      refine List.nodup_append.mpr ⟨h.sent, ?_, fun a hmem b hb => ?_⟩
      · rcases passedOn_cases op s number r with hnone | ⟨c, hone⟩
        · rw [hnone]; exact List.nodup_nil
        · rw [hone]; exact List.nodup_singleton _
      · obtain ⟨x, hx, rfl⟩ := List.mem_map.mp hmem
        obtain ⟨y, hy, rfl⟩ := List.mem_map.mp hb
        rw [call_of_passedOn hy]
        exact hnew x hx
    · obtain ⟨hold, hne⟩ := mem_set_unhooked h.calls hn hc hf
      rcases List.mem_append.mp hx with hx | hx
      · exact h.unsent c hold hf x hx
      · rw [call_of_passedOn hx]
        exact Ne.symm hne
  | stored hn =>
    refine ⟨h.calls.sublist ((List.eraseIdx_sublist _ _).map _), h.sent, fun c hc hf x hx => ?_⟩
    exact h.unsent c (List.mem_of_mem_eraseIdx hc) hf x hx

end Runs

/-- Nothing is stored, cached or sent. -/
def emptyPipeline : Pipeline := ⟨start, ∅, .empty, []⟩

end Pipeline

end TeeProxy.Result
