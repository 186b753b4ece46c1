/-
A response that is delivered again (`ProcessAndStore`, `StoreResponse`).

`ProcessAndStore` passes a result on before `StoreResponse` has looked
whether it is new. The storage refuses the response, where a final one is not
overridden, but its message is on the channel once more, and the event loop
applies it once more: a key that was deleted in between is back
(`redelivery_restores_key`).

A run with the second delivery is compared with the run of its other steps.
Other calls, receives and expirations may come between the check, the hooks
and the storing of the second call. The two runs agree on the wallet cache,
on what is stored and on the channels as long as the steps of the second call
are `Quiet`, and no longer.
-/
import TeeProxy.Result.Wait

namespace TeeProxy.Result

/-! ## Positions in a filtered list -/

section Positions

variable {α : Type} {p : α → Bool} {l : List α} {n : Nat} {a b : α}

theorem exists_of_getElem? (h : l[n]? = some a) : ∃ l₁ l₂, l = l₁ ++ a :: l₂ ∧ n = l₁.length := by
  obtain ⟨hlt, rfl⟩ := List.getElem?_eq_some_iff.mp h
  refine ⟨l.take n, l.drop (n + 1), ?_, by simp; omega⟩
  rw [← List.drop_eq_getElem_cons, List.take_append_drop]

theorem getElem?_filter (hn : l[n]? = some a) (ha : p a = true) :
    (l.filter p)[(l.take n).countP p]? = some a := by
  obtain ⟨l₁, l₂, rfl, rfl⟩ := exists_of_getElem? hn
  simp [ha, List.countP_eq_length_filter]

theorem filter_set_of_pos (hn : l[n]? = some a) (ha : p a = true) (hb : p b = true) :
    (l.set n b).filter p = (l.filter p).set ((l.take n).countP p) b := by
  obtain ⟨l₁, l₂, rfl, rfl⟩ := exists_of_getElem? hn
  simp [ha, hb, List.countP_eq_length_filter]

theorem filter_set_of_neg (hn : l[n]? = some a) (ha : p a = false) (hb : p b = false) :
    (l.set n b).filter p = l.filter p := by
  obtain ⟨l₁, l₂, rfl, rfl⟩ := exists_of_getElem? hn
  simp [ha, hb]

theorem filter_eraseIdx_of_pos (hn : l[n]? = some a) (ha : p a = true) :
    (l.eraseIdx n).filter p = (l.filter p).eraseIdx ((l.take n).countP p) := by
  obtain ⟨l₁, l₂, rfl, rfl⟩ := exists_of_getElem? hn
  simp [ha, List.countP_eq_length_filter, List.eraseIdx_append_of_length_le]

theorem filter_eraseIdx_of_neg (hn : l[n]? = some a) (ha : p a = false) :
    (l.eraseIdx n).filter p = l.filter p := by
  obtain ⟨l₁, l₂, rfl, rfl⟩ := exists_of_getElem? hn
  simp [ha, List.eraseIdx_append_of_length_le]

end Positions

/-- What is on the channel. -/
def Message.content (m : Message) : Channel × ActionResponse := (m.channel, m.response)

/-- What the call has to do. -/
def Call.content (c : Call) : ActionResponse × Bool := (c.response, c.hooked)

namespace Pipeline

/-! ## Two runs -/

/-- The wallet cache, the stored responses and what is on the channels are the
same. -/
structure Agree (s s' : Pipeline) : Prop where
  cache : s'.cache = s.cache
  stored : ∀ id, s'.stored.get? id = s.stored.get? id
  channels : s'.service.onChannels.map Message.content = s.service.onChannels.map Message.content

/-- The call with number `k` is the one at `n`. -/
def IsCall (s : Pipeline) (k n : Nat) : Prop := s.service.calls[n]?.map Call.number = some k

instance (s : Pipeline) (k n : Nat) : Decidable (s.IsCall k n) :=
  inferInstanceAs (Decidable (s.service.calls[n]?.map Call.number = some k))

/-- Where the call at `n` is when call `k` is left out. -/
def position (k : Nat) (s : Pipeline) (n : Nat) : Nat := (s.service.calls.take n).countP (·.number ≠ k)

/-- The step as the run without call `k` has it; a step of call `k` is left
out. -/
def without (k : Nat) (s : Pipeline) : Delivery → Option Delivery
  | .passOn n => if s.IsCall k n then none else some (.passOn (s.position k n))
  | .store n getOk setOk => if s.IsCall k n then none else some (.store (s.position k n) getOk setOk)
  | e => some e

/-- A final response is stored under the key of `r`. -/
def Final (s : Pipeline) (r : ActionResponse) : Prop :=
  ∃ res, s.stored.get? (pairOf r) = some res ∧ res.result.status < 2

instance (s : Pipeline) (r : ActionResponse) : Decidable (s.Final r) :=
  decidable_of_iff ((s.stored.get? (pairOf r)).any fun res => res.result.status < 2)
    (by simp [Final, Option.any_eq_true])

/-- A step of call `k`, which delivers `r`, that touches nothing: its result
has no hook (or the channel is full), and when it comes to be stored a final
response is there (or the storage fails). -/
def Quiet (op : OpPkg) (r : ActionResponse) (k : Nat) (s : Pipeline) : Delivery → Prop
  | .passOn n => s.IsCall k n → ∀ c ∈ hook op r.result, ¬ s.Room c
  | .store n getOk setOk => s.IsCall k n → s.Final r ∨ getOk = false ∨ setOk = false
  | _ => True

instance (op : OpPkg) (r : ActionResponse) (k : Nat) (s : Pipeline) : DecidablePred (Quiet op r k s)
  | .passOn n => inferInstanceAs (Decidable (s.IsCall k n → ∀ c ∈ hook op r.result, ¬ s.Room c))
  | .store n getOk setOk =>
    inferInstanceAs (Decidable (s.IsCall k n → s.Final r ∨ getOk = false ∨ setOk = false))
  | .setIdentity _ | .process _ | .expire _ | .receive _ => .isTrue trivial

/-- A run with a second delivery, and the run of its other steps. -/
structure Twins where
  redelivered : Pipeline
  undisturbed : Pipeline

section System

variable (op : OpPkg) (pkg : SigningPkg) (chainID : UInt64) (wallets : Wallets.WalletPkg)

/-- Both runs take a step, unless it is one of call `k`. -/
def twinStep (k : Nat) (t : Twins) (e : Delivery) : Option Twins :=
  match step op pkg chainID wallets t.redelivered e with
  | none => none
  | some redelivered => match without k t.redelivered e with
    | none => some { t with redelivered }
    | some e' => (step op pkg chainID wallets t.undisturbed e').map fun undisturbed => ⟨redelivered, undisturbed⟩

/-- In `s` a response is delivered, and nothing happens in the other run. The
call, if the response is accepted, has the next number. -/
def twins (s : Pipeline) (r : ActionResponse) : Lts.System Twins Delivery where
  init t := t.undisturbed = s ∧ step op pkg chainID wallets s (.process r) = some t.redelivered
  step := twinStep op pkg chainID wallets s.service.requests.length

end System

/-! ## Single steps -/

section Steps

variable {op : OpPkg} {pkg : SigningPkg} {chainID : UInt64} {wallets : Wallets.WalletPkg} {s s' : Pipeline}
  {r : ActionResponse} {n number : Nat} {getOk setOk : Bool}

/-- The stored responses after `r` was given to the storage. -/
def afterStore (s : Pipeline) (r : ActionResponse) (getOk setOk : Bool) : GoMap Queue.Pair ActionResponse :=
  match storeResponse (s.lookup getOk r) (setResponse setOk r) r with
  | .error _ => s.stored
  | .ok () => s.stored.set (pairOf r) r

theorem calls_of_setIdentity {teeID : Address} (h : step op pkg chainID wallets s (.setIdentity teeID) = some s') :
    s.service.calls = [] := by
  obtain ⟨service, hs, -⟩ := Option.map_eq_some_iff.mp h
  simp only [Result.step] at hs
  split at hs
  next hempty => exact List.isEmpty_iff.mp hempty
  next => cases hs

theorem step_setIdentity (h : s.service.calls = []) (teeID : Address) :
    step op pkg chainID wallets s (.setIdentity teeID) = some { s with
      service := { s.service with teeID := if s.service.teeID ≠ 0 then s.service.teeID else teeID } } := by
  simp only [step, Result.step, List.isEmpty_iff.mpr h, if_true]
  split <;> rfl

theorem step_process (s : Pipeline) (r : ActionResponse) :
    step op pkg chainID wallets s (.process r) = some { s with
      service := { s.service with
        requests := s.service.requests ++ [r]
        calls := s.service.calls ++
          if Accepts op pkg chainID s r then [⟨s.service.requests.length, r, false⟩] else [] } } := by
  by_cases hid : r.result.id = 0
  · have hno : ¬ Accepts op pkg chainID s r := fun ha => ha.1 hid
    simp only [step, Result.step, if_pos hid, if_neg hno, Option.map_some, List.append_nil]
  · simp only [step, Result.step, if_neg hid]
    cases hc : checkSigner op pkg chainID s.service.teeID r with
    | error e =>
      have hno : ¬ Accepts op pkg chainID s r := fun ha => by rw [ha.2] at hc; cases hc
      simp only [if_neg hno, Option.map_some, List.append_nil]
    | ok => simp only [if_pos (show Accepts op pkg chainID s r from ⟨hid, hc⟩), Option.map_some]

theorem step_passOn (hn : s.service.calls[n]? = some ⟨number, r, false⟩) :
    step op pkg chainID wallets s (.passOn n) = some { s with
      service := { s.service with
        calls := s.service.calls.set n ⟨number, r, true⟩
        onChannels := s.service.onChannels ++ passedOn op s number r
        sent := s.service.sent ++ passedOn op s number r } } := by
  obtain ⟨s', hs⟩ : ∃ s', step op pkg chainID wallets s (.passOn n) = some s' := by
    simp only [step, Result.step, hn]
    cases hook op r.result with
    | none => exact ⟨_, rfl⟩
    | some c => by_cases hroom : (s.service.onChannels.filter (·.channel = c)).length < c.size <;> simp [hroom]
  rw [hs]
  cases step_inv hs with
  | passedOn hn' =>
    rw [hn, Option.some.injEq] at hn'
    cases hn'
    rfl

/-- What the storing of the call at `n` leaves. -/
structure StoredAt (n : Nat) (r : ActionResponse) (getOk setOk : Bool) (s s' : Pipeline) : Prop where
  cache : s'.cache = s.cache
  stored : s'.stored = s.afterStore r getOk setOk
  channels : s'.service.onChannels = s.service.onChannels
  teeID : s'.service.teeID = s.service.teeID
  calls : s'.service.calls = s.service.calls.eraseIdx n
  requests : s'.service.requests = s.service.requests

theorem step_store (hn : s.service.calls[n]? = some ⟨number, r, true⟩) :
    ∃ s', step op pkg chainID wallets s (.store n getOk setOk) = some s' ∧ StoredAt n r getOk setOk s s' := by
  simp only [step, Result.step, hn]
  cases hstore : storeResponse (s.lookup getOk r) (setResponse setOk r) r with
  | ok => exact ⟨_, rfl, rfl, by simp only [afterStore, hstore], rfl, rfl, rfl, rfl⟩
  | error e => cases e <;> exact ⟨_, rfl, rfl, by simp only [afterStore, hstore], rfl, rfl, rfl, rfl⟩

theorem call_of_store (h : step op pkg chainID wallets s (.store n getOk setOk) = some s') :
    ∃ number r, s.service.calls[n]? = some ⟨number, r, true⟩ := by
  cases step_inv h with
  | stored hn => exact ⟨_, _, hn⟩

theorem storedAt_of_step (h : step op pkg chainID wallets s (.store n getOk setOk) = some s')
    (hn : s.service.calls[n]? = some ⟨number, r, true⟩) : StoredAt n r getOk setOk s s' := by
  obtain ⟨s'', hs, hstored⟩ : ∃ s'', step op pkg chainID wallets s (.store n getOk setOk) = some s'' ∧ _ :=
    step_store hn
  rw [h, Option.some.injEq] at hs
  rw [hs]
  exact hstored

theorem step_receive {c : Channel} {m : Message} (hm : s.service.onChannels.find? (·.channel = c) = some m) :
    step op pkg chainID wallets s (.receive c) = some { s with
      service := { s.service with onChannels := s.service.onChannels.eraseP (·.channel = c) }
      cache := if c = .keyActions then (s.cache.update op wallets m.response.result).1 else s.cache } := by
  have hany : s.service.onChannels.any (·.channel = c) = true := by
    rw [List.any_eq_true]
    exact ⟨m, List.mem_of_find?_eq_some hm, by simpa using List.find?_some hm⟩
  cases c <;> simp [step, Result.step, hm, hany]

theorem lookup_none (h : s.stored.get? (pairOf r) = none) : s.lookup true r = .error .notFound := by
  simp only [lookup, getResponse, h, if_true]; rfl

theorem lookup_some {res : ActionResponse} (h : s.stored.get? (pairOf r) = some res) :
    s.lookup true r = .ok (some res) := by
  simp only [lookup, getResponse, h, if_true]; rfl

/-- The storage is left alone if it holds a final response or fails. -/
theorem afterStore_of_quiet (h : s.Final r ∨ getOk = false ∨ setOk = false) :
    s.afterStore r getOk setOk = s.stored := by
  cases getOk with
  | false => simp only [afterStore, lookup, getResponse, storeResponse]; rfl
  | true =>
    rcases h with ⟨res, hget, hlt⟩ | hget | rfl
    · simp only [afterStore, lookup_some hget, storeResponse, if_pos hlt]
    · cases hget
    · rw [afterStore, Wait.storeResponse_eq]
      cases storeResponse (s.lookup true r) (.ok ()) r <;> rfl

theorem quiet_of_afterStore (hstatus : r.result.status = 1)
    (h : ∀ id, (s.afterStore r getOk setOk).get? id = s.stored.get? id) :
    s.Final r ∨ getOk = false ∨ setOk = false := by
  by_contra hloud
  simp only [not_or, Bool.not_eq_false] at hloud
  obtain ⟨hfinal, rfl, rfl⟩ := hloud
  have hlow : ¬ (r.result.status ≥ 2) := by rw [hstatus]; decide
  have hset : s.afterStore r true true = s.stored.set (pairOf r) r := by
    cases hget : s.stored.get? (pairOf r) with
    | none => simp only [afterStore, lookup_none hget, storeResponse, setResponse, if_true]
    | some res =>
      have hres : ¬ res.result.status < 2 := fun hlt => hfinal ⟨res, hget, hlt⟩
      simp only [afterStore, lookup_some hget, storeResponse, setResponse, if_true, if_neg hres, hlow, false_and,
        if_false]
  have hself := h (pairOf r)
  rw [hset, GoMap.get?_set_self] at hself
  exact hfinal ⟨r, hself.symm, by rw [hstatus]; decide⟩

end Steps

/-! ## The two runs beside each other -/

section Beside

variable {op : OpPkg} {pkg : SigningPkg} {chainID : UInt64} {wallets : Wallets.WalletPkg} {u u' v : Pipeline}
  {r : ActionResponse} {k : Nat} {e : Delivery}

/-- The run without call `k` has the other calls, and everything that they
work on. -/
structure Beside (r : ActionResponse) (k : Nat) (u v : Pipeline) : Prop where
  cache : v.cache = u.cache
  stored : v.stored = u.stored
  channels : v.service.onChannels.map Message.content = u.service.onChannels.map Message.content
  teeID : v.service.teeID = u.service.teeID
  calls : v.service.calls.map Call.content = (u.service.calls.filter (·.number ≠ k)).map Call.content
  second : ∀ c ∈ u.service.calls, c.number = k → c.response = r
  numbered : k < u.service.requests.length

theorem Beside.agree (h : Beside r k u v) : Agree u v := ⟨h.cache, fun id => by rw [h.stored], h.channels⟩

theorem Beside.room_iff (h : Beside r k u v) (c : Channel) : v.Room c ↔ u.Room c := by
  have hlen := congrArg (fun l => (l.filter (·.1 = c)).length) h.channels
  simp only [List.filter_map, List.length_map] at hlen
  exact iff_of_eq (congrArg (· < c.size) hlen)

theorem Beside.passedOn (h : Beside r k u v) (number number' : Nat) (x : ActionResponse) :
    (passedOn op v number' x).map Message.content = (passedOn op u number x).map Message.content := by
  cases hh : hook op x.result with
  | none => simp only [Pipeline.passedOn, hh]
  | some c =>
    by_cases hroom : u.Room c
    · rw [passedOn_of_room hh hroom, passedOn_of_room hh ((h.room_iff c).mpr hroom)]
      rfl
    · rw [passedOn_eq_nil_iff.mpr (by simpa [hh] using mt (h.room_iff c).mp hroom),
        passedOn_eq_nil_iff.mpr (by simpa [hh] using hroom)]

theorem Beside.call (h : Beside r k u v) {n number : Nat} {x : ActionResponse} {hooked : Bool}
    (hn : u.service.calls[n]? = some ⟨number, x, hooked⟩) (hne : number ≠ k) :
    ∃ number', v.service.calls[u.position k n]? = some ⟨number', x, hooked⟩ := by
  have hfilter := getElem?_filter (p := fun c => c.number ≠ k) hn (by simpa using hne)
  have hmap : (v.service.calls.map Call.content)[u.position k n]? = some (x, hooked) := by
    rw [h.calls, List.getElem?_map, position, hfilter]
    rfl
  rw [List.getElem?_map, Option.map_eq_some_iff] at hmap
  obtain ⟨⟨number', x', hooked'⟩, hv, heq⟩ := hmap
  cases heq
  exact ⟨number', hv⟩

theorem Beside.setIdentity (h : Beside r k u v) {teeID : Address}
    (hs : step op pkg chainID wallets u (.setIdentity teeID) = some u') :
    ∃ v', step op pkg chainID wallets v (.setIdentity teeID) = some v' ∧ Beside r k u' v' := by
  have hu := calls_of_setIdentity hs
  have hv : v.service.calls = [] := by simpa [hu] using h.calls
  rw [step_setIdentity hu, Option.some.injEq] at hs
  subst hs
  exact ⟨_, step_setIdentity hv teeID, h.cache, h.stored, h.channels, by simp only [h.teeID], h.calls, h.second,
    h.numbered⟩

theorem Beside.process (h : Beside r k u v) {x : ActionResponse}
    (hs : step op pkg chainID wallets u (.process x) = some u') :
    ∃ v', step op pkg chainID wallets v (.process x) = some v' ∧ Beside r k u' v' := by
  have hnew : u.service.requests.length ≠ k := Nat.ne_of_gt h.numbered
  have haccepts : Accepts op pkg chainID v x ↔ Accepts op pkg chainID u x := by rw [Accepts, Accepts, h.teeID]
  rw [step_process, Option.some.injEq] at hs
  subst hs
  refine ⟨_, step_process v x, h.cache, h.stored, h.channels, h.teeID, ?_, fun c hc hk => ?_, ?_⟩
  · by_cases hyes : Accepts op pkg chainID u x
    · simp [h.calls, hyes, haccepts.mpr hyes, hnew, Call.content]
    · simp [h.calls, hyes, mt haccepts.mp hyes]
  · rcases List.mem_append.mp hc with hc | hc
    · exact h.second c hc hk
    · split at hc
      · rw [List.mem_singleton.mp hc] at hk
        exact absurd hk hnew
      · cases hc
  · simp only [List.length_append]
    exact Nat.lt_add_right _ h.numbered

theorem number_ne_of_not_isCall {n number : Nat} {x : ActionResponse} {hooked : Bool}
    (hn : u.service.calls[n]? = some ⟨number, x, hooked⟩) (h : ¬ u.IsCall k n) : number ≠ k := by
  intro heq
  apply h
  rw [IsCall, hn, ← heq]
  rfl

theorem Beside.passOn_other (h : Beside r k u v) {n : Nat} (hother : ¬ u.IsCall k n)
    (hs : step op pkg chainID wallets u (.passOn n) = some u') :
    ∃ v', step op pkg chainID wallets v (.passOn (u.position k n)) = some v' ∧ Beside r k u' v' := by
  cases step_inv hs with
  | @passedOn _ number x hn =>
    have hne := number_ne_of_not_isCall hn hother
    obtain ⟨number', hv⟩ := h.call hn hne
    refine ⟨_, step_passOn hv, h.cache, h.stored, ?_, h.teeID, ?_, fun c hc hk => ?_, h.numbered⟩
    · simp only [List.map_append, h.channels, h.passedOn number number' x]
    · rw [filter_set_of_pos hn (by simpa using hne) (by simpa using hne), List.map_set, List.map_set, h.calls]
      rfl
    · rcases List.mem_or_eq_of_mem_set hc with hc | rfl
      · exact h.second c hc hk
      · exact absurd hk hne

/-- Both runs store the response of a call, or the storage leaves them both as
they are. -/
theorem Beside.storedAt {n m : Nat} {x : ActionResponse} {getOk setOk : Bool} {v' : Pipeline} (h : Beside r k u v)
    (hu : StoredAt n x getOk setOk u u') (hv : StoredAt m x getOk setOk v v')
    (hcalls : v'.service.calls.map Call.content = (u'.service.calls.filter (·.number ≠ k)).map Call.content) :
    Beside r k u' v' := by
  refine ⟨?_, ?_, ?_, ?_, hcalls, fun c hc hk => ?_, ?_⟩
  · rw [hv.cache, hu.cache, h.cache]
  · rw [hv.stored, hu.stored]
    simp only [afterStore, lookup, h.stored]
  · rw [hv.channels, hu.channels, h.channels]
  · rw [hv.teeID, hu.teeID, h.teeID]
  · rw [hu.calls] at hc
    exact h.second c (List.mem_of_mem_eraseIdx hc) hk
  · rw [hu.requests]
    exact h.numbered

theorem Beside.store_other (h : Beside r k u v) {n : Nat} {getOk setOk : Bool} (hother : ¬ u.IsCall k n)
    (hs : step op pkg chainID wallets u (.store n getOk setOk) = some u') :
    ∃ v', step op pkg chainID wallets v (.store (u.position k n) getOk setOk) = some v' ∧ Beside r k u' v' := by
  obtain ⟨number, x, hn⟩ := call_of_store hs
  have hne := number_ne_of_not_isCall hn hother
  have hu' := storedAt_of_step hs hn
  obtain ⟨number', hv⟩ := h.call hn hne
  obtain ⟨v', hs', hv'⟩ : ∃ v', step op pkg chainID wallets v (.store (u.position k n) getOk setOk) = some v' ∧ _ :=
    step_store hv
  refine ⟨v', hs', h.storedAt hu' hv' ?_⟩
  rw [hv'.calls, hu'.calls, filter_eraseIdx_of_pos hn (by simpa using hne), ← List.eraseIdx_map,
    ← List.eraseIdx_map, h.calls]
  rfl

theorem Beside.receive (h : Beside r k u v) {c : Channel}
    (hs : step op pkg chainID wallets u (.receive c) = some u') :
    ∃ v', step op pkg chainID wallets v (.receive c) = some v' ∧ Beside r k u' v' := by
  cases step_inv hs with
  | @received _ m _ hm hcache =>
    obtain ⟨m', hm', hcontent⟩ : ∃ m', v.service.onChannels.find? (·.channel = c) = some m' ∧
        m'.content = m.content := by
      have hfind := congrArg (fun l => l.find? (·.1 = c)) h.channels
      simp only [List.find?_map] at hfind
      exact Option.map_eq_some_iff.mp (hfind.trans (congrArg (Option.map Message.content) hm))
    have hresponse : m'.response = m.response := congrArg Prod.snd hcontent
    refine ⟨_, step_receive hm', ?_, h.stored, ?_, h.teeID, h.calls, h.second, h.numbered⟩
    · rw [hcache]
      simp only [h.cache, hresponse]
    · have herase := congrArg (fun l => l.eraseP (·.1 = c)) h.channels
      simp only [List.eraseP_map] at herase
      exact herase

theorem Beside.other {e' : Delivery} (h : Beside r k u v) (he : without k u e = some e')
    (hs : step op pkg chainID wallets u e = some u') :
    ∃ v', step op pkg chainID wallets v e' = some v' ∧ Beside r k u' v' := by
  cases e with
  | setIdentity teeID => cases he; exact h.setIdentity hs
  | process x => cases he; exact h.process hs
  | passOn n =>
    rw [without] at he
    split at he
    · cases he
    next hother => cases he; exact h.passOn_other hother hs
  | store n getOk setOk =>
    rw [without] at he
    split at he
    · cases he
    next hother => cases he; exact h.store_other hother hs
  | expire id =>
    cases he
    cases hs
    exact ⟨_, rfl, h.cache, by rw [h.stored], h.channels, h.teeID, h.calls, h.second, h.numbered⟩
  | receive c => cases he; exact h.receive hs

/-- The call with number `k` delivers `r`. -/
theorem Beside.own_call (h : Beside r k u v) {n number : Nat} {x : ActionResponse} {hooked : Bool}
    (hcall : u.IsCall k n) (hn : u.service.calls[n]? = some ⟨number, x, hooked⟩) : number = k ∧ x = r := by
  rw [IsCall, hn, Option.map_some, Option.some.injEq] at hcall
  exact ⟨hcall, h.second _ (List.mem_of_getElem? hn) hcall⟩

theorem Beside.passOn_own (h : Beside r k u v) {n : Nat} (hcall : u.IsCall k n)
    (hs : step op pkg chainID wallets u (.passOn n) = some u') :
    (Quiet op r k u (.passOn n) → Beside r k u' v) ∧ (Agree u' v → Quiet op r k u (.passOn n)) := by
  cases step_inv hs with
  | @passedOn _ number x hn =>
    obtain ⟨rfl, rfl⟩ := h.own_call hcall hn
    refine ⟨fun hquiet => ?_, fun hagree _ => ?_⟩
    · rw [passedOn_eq_nil_iff.mpr (hquiet hcall), List.append_nil, List.append_nil]
      refine ⟨h.cache, h.stored, h.channels, h.teeID, ?_, fun c hc hk => ?_, h.numbered⟩
      · rw [filter_set_of_neg hn (by simp) (by simp), h.calls]
      · rcases List.mem_or_eq_of_mem_set hc with hc | rfl
        · exact h.second c hc hk
        · rfl
    · have hchannels := hagree.channels
      rw [h.channels, List.map_append, List.self_eq_append_right, List.map_eq_nil_iff] at hchannels
      exact passedOn_eq_nil_iff.mp hchannels

theorem Beside.store_own (h : Beside r k u v) (hstatus : r.result.status = 1) {n : Nat} {getOk setOk : Bool}
    (hcall : u.IsCall k n) (hs : step op pkg chainID wallets u (.store n getOk setOk) = some u') :
    (Quiet op r k u (.store n getOk setOk) → Beside r k u' v) ∧
      (Agree u' v → Quiet op r k u (.store n getOk setOk)) := by
  obtain ⟨number, x, hn⟩ := call_of_store hs
  have hu' := storedAt_of_step hs hn
  obtain ⟨rfl, rfl⟩ := h.own_call hcall hn
  refine ⟨fun hquiet => ⟨?_, ?_, ?_, ?_, ?_, fun c hc hk => ?_, ?_⟩, fun hagree _ => ?_⟩
  · rw [hu'.cache, h.cache]
  · rw [hu'.stored, afterStore_of_quiet (hquiet hcall), h.stored]
  · rw [hu'.channels, h.channels]
  · rw [hu'.teeID, h.teeID]
  · rw [hu'.calls, filter_eraseIdx_of_neg hn (by simp), h.calls]
  · rw [hu'.calls] at hc
    exact h.second c (List.mem_of_mem_eraseIdx hc) hk
  · rw [hu'.requests]
    exact h.numbered
  · refine quiet_of_afterStore hstatus fun id => ?_
    rw [← hu'.stored, ← hagree.stored id, h.stored]

/-- A step of call `k` leaves the runs beside each other if it is quiet, and
makes them differ if it is not. -/
theorem Beside.own (h : Beside r k u v) (hstatus : r.result.status = 1) (he : without k u e = none)
    (hs : step op pkg chainID wallets u e = some u') :
    (Quiet op r k u e → Beside r k u' v) ∧ (Agree u' v → Quiet op r k u e) := by
  cases e with
  | setIdentity | process | expire | receive => cases he
  | passOn n =>
    rw [without] at he
    split at he
    next hcall => exact h.passOn_own hcall hs
    next => cases he
  | store n getOk setOk =>
    rw [without] at he
    split at he
    next hcall => exact h.store_own hstatus hcall hs
    next => cases he

theorem quiet_of_without {e' : Delivery} (he : without k u e = some e') : Quiet op r k u e := by
  cases e with
  | setIdentity | process | expire | receive => trivial
  | passOn n =>
    rw [without] at he
    split at he
    · cases he
    next hother => exact fun hcall => absurd hcall hother
  | store n getOk setOk =>
    rw [without] at he
    split at he
    · cases he
    next hother => exact fun hcall => absurd hcall hother

/-- **One step of the two runs.** -/
theorem Beside.step (h : Beside r k u v) (hstatus : r.result.status = 1)
    (hs : step op pkg chainID wallets u e = some u') :
    ∃ v', twinStep op pkg chainID wallets k ⟨u, v⟩ e = some ⟨u', v'⟩ ∧ (Quiet op r k u e → Beside r k u' v') ∧
      (Agree u' v' → Quiet op r k u e) := by
  cases he : without k u e with
  | none =>
    have hown := h.own hstatus he hs
    exact ⟨v, by simp only [twinStep, hs, he], hown.1, hown.2⟩
  | some e' =>
    obtain ⟨v', hv, hbeside⟩ := h.other he hs
    exact ⟨v', by simp only [twinStep, hs, he, hv, Option.map_some], fun _ => hbeside, fun _ => quiet_of_without he⟩

end Beside

/-! ## Runs -/

section Runs

variable {op : OpPkg} {pkg : SigningPkg} {chainID : UInt64} {wallets : Wallets.WalletPkg} {s t u u' v : Pipeline}
  {r : ActionResponse} {k : Nat} {es : List Delivery}

theorem agree_iff_quiet (h : Beside r s.service.requests.length u v) (hstatus : r.result.status = 1)
    (hrun : (system op pkg chainID wallets).run u es = some t) :
    (∀ es', es' <+: es → ∃ t', (twins op pkg chainID wallets s r).run ⟨u, v⟩ es' = some t' ∧
      Agree t'.redelivered t'.undisturbed) ↔
    (system op pkg chainID wallets).runIf (Quiet op r s.service.requests.length) u es = some t := by
  induction es generalizing u v with
  | nil =>
    refine ⟨fun _ => hrun, fun _ es' hes => ?_⟩
    rw [List.prefix_nil.mp hes]
    exact ⟨_, rfl, h.agree⟩
  | cons e es ih =>
    obtain ⟨u', hs, hrun⟩ := Lts.System.run_cons_iff.mp hrun
    obtain ⟨v', ht, hbeside, hquiet⟩ : ∃ v', (twins op pkg chainID wallets s r).step ⟨u, v⟩ e = some ⟨u', v'⟩ ∧ _ :=
      h.step hstatus hs
    rw [Lts.System.runIf_cons hs]
    constructor
    · intro hall
      have hq : Quiet op r s.service.requests.length u e := by
        obtain ⟨t', ht', hagree⟩ := hall [e] (by simp)
        rw [Lts.System.run_cons ht] at ht'
        cases ht'
        exact hquiet hagree
      rw [if_pos hq, ← ih (hbeside hq) hrun]
      intro es' hes
      have hcons := hall (e :: es') ((List.prefix_cons_inj e).mpr hes)
      rwa [Lts.System.run_cons ht] at hcons
    · intro hall
      split at hall
      next hq =>
        rw [← ih (hbeside hq) hrun] at hall
        intro es' hes
        rcases List.prefix_cons_iff.mp hes with rfl | ⟨es'', rfl, hes''⟩
        · exact ⟨_, rfl, h.agree⟩
        · rw [Lts.System.run_cons ht]
          exact hall es'' hes''
      next => cases hall

/-- There is no call with the number, and there will be none. -/
structure Absent (k : Nat) (s : Pipeline) : Prop where
  calls : ∀ c ∈ s.service.calls, c.number ≠ k
  numbered : k < s.service.requests.length

theorem Absent.step {e : Delivery} (h : Absent k u) (hs : Step op pkg chainID wallets u e u') : Absent k u' := by
  cases hs with
  | identified | expired | received => exact ⟨h.calls, h.numbered⟩
  | turnedAway =>
    refine ⟨h.calls, ?_⟩
    simp only [List.length_append]
    exact Nat.lt_add_right _ h.numbered
  | accepted =>
    refine ⟨fun c hc => ?_, ?_⟩
    · rcases List.mem_append.mp hc with hc | hc
      · exact h.calls c hc
      · rw [List.mem_singleton.mp hc]
        exact Nat.ne_of_gt h.numbered
    · simp only [List.length_append]
      exact Nat.lt_add_right _ h.numbered
  | passedOn hn =>
    refine ⟨fun c hc => ?_, h.numbered⟩
    rcases List.mem_or_eq_of_mem_set hc with hc | rfl
    · exact h.calls c hc
    · have hne := h.calls _ (List.mem_of_getElem? hn)
      exact hne
  | stored => exact ⟨fun c hc => h.calls c (List.mem_of_mem_eraseIdx hc), h.numbered⟩

theorem Absent.quiet (h : Absent k u) (e : Delivery) : Quiet op r k u e := by
  have hnot : ∀ n, ¬ u.IsCall k n := by
    intro n hcall
    obtain ⟨c, hc, hk⟩ := Option.map_eq_some_iff.mp hcall
    exact h.calls c (List.mem_of_getElem? hc) hk
  cases e with
  | setIdentity | process | expire | receive => trivial
  | passOn n => exact fun hcall => absurd hcall (hnot n)
  | store n => exact fun hcall => absurd hcall (hnot n)

theorem Absent.run (h : Absent k u) (hrun : (system op pkg chainID wallets).run u es = some t) :
    (system op pkg chainID wallets).runIf (Quiet op r k) u es = some t := by
  induction es generalizing u with
  | nil => exact hrun
  | cons e es ih =>
    obtain ⟨u', hs, hrun⟩ := Lts.System.run_cons_iff.mp hrun
    rw [Lts.System.runIf_cons hs, if_pos (h.quiet e)]
    exact ih (h.step (step_inv hs)) hrun

/-- **When a second delivery is harmless.** In any reached state a response with
status 1 is delivered, whether it was stored before or not, and the run goes
on in any way. After every part of the run the wallet cache, the stored
responses and the channels are what they would be without that delivery,
exactly if each step of its call is quiet: its result has no hook, or finds
the channel full, and when it comes to be stored a final response is there,
or the storage fails. A response that is turned away has no call, and all
steps are quiet. -/
theorem redelivery_untouched_iff (h : Lts.Reach (system op pkg chainID wallets) Lts.Free s)
    (hstatus : r.result.status = 1) (hdelivered : step op pkg chainID wallets s (.process r) = some u)
    (hrun : (system op pkg chainID wallets).run u es = some t) :
    ((∀ es', es' <+: es → ∃ t', (twins op pkg chainID wallets s r).run ⟨u, s⟩ es' = some t' ∧
        Agree t'.redelivered t'.undisturbed) ↔
      (system op pkg chainID wallets).runIf (Quiet op r s.service.requests.length) u es = some t) ∧
    (¬ Accepts op pkg chainID s r →
      (system op pkg chainID wallets).runIf (Quiet op r s.service.requests.length) u es = some t) := by
  have hold : ∀ c ∈ s.service.calls, c.number ≠ s.service.requests.length := fun c hc =>
    Nat.ne_of_lt (List.getElem?_eq_some_iff.mp ((authentic (reach_service h)).calls c hc).1).1
  rw [step_process, Option.some.injEq] at hdelivered
  subst hdelivered
  have hlen : s.service.requests.length < (s.service.requests ++ [r]).length := by simp
  refine ⟨agree_iff_quiet ⟨rfl, rfl, rfl, rfl, ?_, fun c hc hk => ?_, hlen⟩ hstatus hrun, fun hno => ?_⟩
  · have hfilter : s.service.calls.filter (·.number ≠ s.service.requests.length) = s.service.calls :=
      List.filter_eq_self.mpr fun c hc => by simpa using hold c hc
    rw [List.filter_append, hfilter]
    split <;> simp
  · rcases List.mem_append.mp hc with hc | hc
    · exact absurd hk (hold c hc)
    · split at hc
      · rw [List.mem_singleton.mp hc]
      · cases hc
  · rw [if_neg hno, List.append_nil] at hrun ⊢
    exact Absent.run ⟨hold, hlen⟩ hrun

end Runs

/-! ## A harmless delivery, and a key that comes back -/

/-- A response of a command without hook, stored once. -/
def answered : List Delivery :=
  [.setIdentity 9, .process (plainResponse 1 .keyInfo [9]), .passOn 0, .store 0 true true]

/-- The second call goes through its steps while another one does. -/
def interleaved : List Delivery :=
  [.process (plainResponse 2 .keyInfo [9]), .passOn 1, .passOn 0, .store 1 true true, .store 0 true true]

theorem redelivery_untouched_answered :
    ∃ s u t, step .numbered .named 0 .bytes s (.process (plainResponse 1 .keyInfo [9])) = some u ∧
      plainResponse 1 .keyInfo [9] ∈ s.history ∧
      (twins .numbered .named 0 .bytes s (plainResponse 1 .keyInfo [9])).run ⟨u, s⟩ interleaved = some t ∧
      Agree t.redelivered t.undisturbed := by
  have hrun : ((system .numbered .named 0 .bytes).run emptyPipeline answered).any (fun s =>
      s.history = [plainResponse 1 .keyInfo [9]] ∧
      (step .numbered .named 0 .bytes s (.process (plainResponse 1 .keyInfo [9]))).any fun u =>
        ((system .numbered .named 0 .bytes).runIf
          (Quiet .numbered (plainResponse 1 .keyInfo [9]) s.service.requests.length) u interleaved).isSome) := by
    decide +kernel
  obtain ⟨s, hs, hend⟩ := (Option.any_eq_true _ _).mp hrun
  obtain ⟨hhist, hdeliver⟩ := of_decide_eq_true hend
  obtain ⟨u, hu, hquiet⟩ := (Option.any_eq_true _ _).mp hdeliver
  obtain ⟨t, ht⟩ := Option.isSome_iff_exists.mp hquiet
  have hreach : Lts.Reach (system .numbered .named 0 .bytes) Lts.Free s :=
    .of_run (.init ⟨.empty, rfl⟩) (fun _ _ _ => trivial) hs
  obtain ⟨t', ht', hagree⟩ :=
    (redelivery_untouched_iff hreach rfl hu (Lts.System.run_of_runIf ht)).1.mpr ht interleaved (List.prefix_refl _)
  exact ⟨s, u, t', hu, by rw [hhist]; exact List.mem_singleton_self _, ht', hagree⟩

/-- A key is generated and deleted; both results are stored and applied. -/
def generatedAndDeleted : List Delivery :=
  [.setIdentity 9,
    .process (plainResponse 1 .keyGenerate [9]), .passOn 0, .store 0 true true, .receive .keyActions,
    .process (plainResponse 2 .keyDelete [9]), .passOn 0, .store 0 true true, .receive .keyActions]

/-- The KEY_GENERATE response comes again. -/
def generatedAgain : List Delivery :=
  [.process (plainResponse 1 .keyGenerate [9]), .passOn 0, .store 0 true true, .receive .keyActions]

/-- The KEY_GENERATE response comes again after the KEY_DELETE result was
applied. The storage refuses it, but its message is on `KeyActions`, and the
event loop puts the key back. -/
theorem redelivery_restores_key :
    ∃ s t, Lts.Reach (system .numbered .named 0 .bytes) (Passes .numbered .keyActions) s ∧
      plainResponse 1 .keyGenerate [9] ∈ s.history ∧ s.service.onChannels = [] ∧ ¬ s.cache.Has ⟨1, 0⟩ ∧
      (system .numbered .named 0 .bytes).runIf (Passes .numbered .keyActions) s generatedAgain = some t ∧
      t.history = s.history ∧ t.cache.Has ⟨1, 0⟩ := by
  have hrun : ((system .numbered .named 0 .bytes).runIf (Passes .numbered .keyActions) emptyPipeline
      generatedAndDeleted).any (fun s =>
        s.history = [plainResponse 1 .keyGenerate [9], plainResponse 2 .keyDelete [9]] ∧
        s.service.onChannels.isEmpty ∧ ¬ s.cache.Has ⟨1, 0⟩ ∧
        ((system .numbered .named 0 .bytes).runIf (Passes .numbered .keyActions) s generatedAgain).any fun t =>
          t.history = s.history ∧ t.cache.Has ⟨1, 0⟩) := by
    decide +kernel
  obtain ⟨s, hs, hend⟩ := (Option.any_eq_true _ _).mp hrun
  obtain ⟨hhist, hempty, hgone, hagain⟩ := of_decide_eq_true hend
  obtain ⟨t, ht, hback⟩ := (Option.any_eq_true _ _).mp hagain
  refine ⟨s, t, .of_runIf (.init ⟨.empty, rfl⟩) hs, ?_, List.isEmpty_iff.mp hempty, hgone, ht,
    of_decide_eq_true hback⟩
  rw [hhist]
  exact List.mem_cons_self

end Pipeline

end TeeProxy.Result
