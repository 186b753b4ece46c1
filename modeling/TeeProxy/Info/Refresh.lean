/-
The refresh of the TEE info (`internal/service/info/info.go`), the attestation
check (`pkg/attestation/verifier.go`) and the readiness probe
(`internal/liveness/liveness.go`).

A call of `retryUpdate` makes attempts until one succeeds. An attempt sends a
challenge and waits; what the indexer, the queue, the node and the token
validation answer is part of the event, so it can be anything. Any number of
calls can run at once. The write of `Latest` and that of the attestation error
are under the service's lock, and everything an attempt does between its two
waits touches no shared state, so an attempt is two steps.
-/
import TeeProxy.Lib.Fallible
import TeeProxy.Result.Wait

namespace TeeProxy.Info

open GoTime (Time Duration)

/-! ## Verifying a response -/

/-- `types.TeeInfoResponse`, as far as it is checked. -/
structure TeeInfoResponse where
  challenge : Hash
  chainID : UInt64
  publicKey : Bytes
  machinePublicKey : Bytes
  attestation : Bytes
  deriving DecidableEq, Repr

/-- `attestation.Config`. What the optional checks need is part of the token's
validation. -/
structure AttestationConfig where
  enabled : Bool
  chainID : UInt64
  allowMagicPass : Bool

/-- The errors of the attestation, with the token's as a text. -/
inductive VerifyErr
  | challengeMismatch
  | pubKeyMismatch
  | chainIDMismatch (proxy tee : UInt64)
  | magicPassDisabled
  | token (e : PkgErr)
  deriving DecidableEq, Repr

/-- What the refresh calls: JSON, tee-node's key parsing and signature check,
and the signing payload. -/
structure InfoPkg where
  magicPass : Bytes
  marshalRequest : Hash → Except PkgErr Bytes
  marshalDirect : Bytes → Except PkgErr Bytes
  unmarshalInfo : Bytes → Except PkgErr TeeInfoResponse
  parsePubKey : Bytes → Except PkgErr Bytes
  pubkeyToAddress : Bytes → Address
  resultHash : ActionResult → Hash
  payloadHash : UInt64 → Hash → Except PkgErr Hash
  verifySignature : Hash → Bytes → Address → Except PkgErr Unit

/-- The stage an attempt failed at, and why. -/
inductive RefreshErr
  | fetchBlock (e : PkgErr)
  | createAction (e : PkgErr)
  | enqueue (e : PkgErr)
  | waitResponse (e : Result.WaitErr)
  | actionStatus (status : UInt8)
  | unmarshal (e : PkgErr)
  | parseTEEID (e : PkgErr)
  | payloadHash (e : PkgErr)
  | verifySignature (e : PkgErr)
  | verifyAttestation (e : VerifyErr)
  deriving DecidableEq

/-- `retryableStage`. -/
def RefreshErr.retryable : RefreshErr → Bool
  | .verifySignature _ | .verifyAttestation _ => false
  | _ => true

section Verify

variable (pkg : InfoPkg)

/-- `attestation.Verify`. `token` is how the validation of the token comes out:
its certificate chain, the nonce and the optional claims, at that moment. -/
def verify (cfg : AttestationConfig) (token : Except PkgErr Unit) (tir : TeeInfoResponse) (sentChallenge : Hash) :
    Except VerifyErr Unit :=
  if !cfg.enabled then .ok ()
  else if tir.challenge ≠ sentChallenge then .error .challengeMismatch
  else if tir.publicKey ≠ tir.machinePublicKey then .error .pubKeyMismatch
  else if tir.chainID ≠ cfg.chainID then .error (.chainIDMismatch cfg.chainID tir.chainID)
  else if tir.attestation = pkg.magicPass then
    if !cfg.allowMagicPass then .error .magicPassDisabled else .ok ()
  else token.mapError .token

/-- `ParseTeeID`: the address of the TEE's key. -/
def parseTeeID (tir : TeeInfoResponse) : Except PkgErr Address := do
  let teePub ← pkg.parsePubKey tir.publicKey
  return pkg.pubkeyToAddress teePub

/-- The checks of `updateInfo`, where there is an attestation config. -/
def verifyResponse (cfg : Option AttestationConfig) (challenge : Hash) (token : Except PkgErr Unit)
    (response : ActionResponse) (result : TeeInfoResponse) : Except RefreshErr Unit :=
  match cfg with
  | none => .ok ()
  | some cfg => do
    let teeID ← (parseTeeID pkg result).mapError .parseTEEID
    let signingHash ← (pkg.payloadHash result.chainID (pkg.resultHash response.result)).mapError .payloadHash
    (pkg.verifySignature signingHash response.signature teeID).mapError .verifySignature
    (verify pkg cfg token result challenge).mapError .verifyAttestation

/-! ## An attempt -/

def newInfoAction (id : Except PkgErr Hash) (challenge : Hash) : Except PkgErr Action := do
  let msg ← pkg.marshalRequest challenge
  Queue.directInstructionToAction id (pkg.marshalDirect msg)

/-- `updateInfo` up to its wait: the challenge is the hash of the latest block. -/
def sendRequest (block id : Except PkgErr Hash) (enqueued : Except PkgErr Unit) :
    Except RefreshErr (Hash × Action) := do
  let challenge ← block.mapError .fetchBlock
  let action ← (newInfoAction pkg id challenge).mapError .createAction
  enqueued.mapError .enqueue
  return (challenge, action)

/-- `updateInfo` from its wait to the write. -/
def readResponse (cfg : Option AttestationConfig) (challenge : Hash) (waited : Except Result.WaitErr ActionResponse)
    (token : Except PkgErr Unit) : Except RefreshErr TeeInfoResponse := do
  let response ← waited.mapError .waitResponse
  if response.result.status ≠ 1 then throw (.actionStatus response.result.status)
  let result ← (pkg.unmarshalInfo response.result.data).mapError .unmarshal
  verifyResponse pkg cfg challenge token response result
  return result

end Verify

/-- `info.Service`, as far as it changes. -/
structure Service where
  latest : Option TeeInfoResponse
  lastUpdated : Time
  lastAttestationErr : Option VerifyErr

/-- What an attempt writes. -/
def Service.record (s : Service) (now : Time) : Except RefreshErr TeeInfoResponse → Service
  | .ok result => { s with latest := some result, lastUpdated := now }
  | .error (.verifyAttestation e) => { s with lastAttestationErr := some e }
  | .error _ => s

/-! ## Calls of `retryUpdate` -/

/-- Where a call is: at the start of an attempt, waiting for the response to a
challenge, waiting for its next attempt, or returned. -/
inductive Phase
  | updating
  | waiting (challenge : Hash) (action : Action)
  | sleeping (err : RefreshErr)
  | returned (res : Except RefreshErr Hash)
  deriving DecidableEq

/-- A limit below one is none. -/
structure Call where
  attempts : Int
  attempt : Nat
  phase : Phase
  deriving DecidableEq

/-- What `retryUpdate` does with the outcome of an attempt. `cancelled` is
whether its context has ended. -/
def Call.next (c : Call) (cancelled : Bool) : Except RefreshErr Hash → Call
  | .ok challenge => { c with phase := .returned (.ok challenge) }
  | .error e =>
    if (1 ≤ c.attempts ∧ c.attempts ≤ c.attempt) ∨ e.retryable = false ∨ cancelled = true then
      { c with phase := .returned (.error e) }
    else { c with phase := .sleeping e }

/-- A request that was enqueued: the call and the number of its attempt, the
challenge and the action. -/
structure Sent where
  call : Nat
  attempt : Nat
  challenge : Hash
  action : Action

/-- The service and the calls, by number; and of the past, what was sent. -/
structure State where
  service : Service
  calls : List Call
  sent : List Sent

/-- `retryUpdate` is called; a call sends its request; the response, or the
lack of it, is processed; a call is over with its delay. -/
inductive Event
  | retryUpdate (attempts : Int)
  | request (n : Nat) (block id : Except PkgErr Hash) (enqueued : Except PkgErr Unit) (cancelled : Bool)
  | respond (n : Nat) (waited : Except Result.WaitErr ActionResponse) (token : Except PkgErr Unit) (now : Time)
      (cancelled : Bool)
  | wake (n : Nat) (cancelled : Bool)

section System

variable (pkg : InfoPkg) (cfg : Option AttestationConfig)

/-- An attempt of `retryUpdate` sends a challenge, waits and reads the response;
one that fails is the last or is followed by a delay. -/
def step (s : State) : Event → Option State
  | .retryUpdate attempts => some { s with calls := s.calls ++ [⟨attempts, 1, .updating⟩] }
  | .request n block id enqueued cancelled => match s.calls[n]? with
    | none => none
    | some c => match c.phase with
      | .updating => match sendRequest pkg block id enqueued with
        | .error e => some { s with calls := s.calls.set n (c.next cancelled (.error e)) }
        | .ok (challenge, action) => some { s with
            calls := s.calls.set n { c with phase := .waiting challenge action }
            sent := s.sent ++ [⟨n, c.attempt, challenge, action⟩] }
      | _ => none
  | .respond n waited token now cancelled => match s.calls[n]? with
    | none => none
    | some c => match c.phase with
      | .waiting challenge _ =>
        let res := readResponse pkg cfg challenge waited token
        some { s with
          service := s.service.record now res
          calls := s.calls.set n (c.next cancelled (res.map fun _ => challenge)) }
      | _ => none
  | .wake n cancelled => match s.calls[n]? with
    | none => none
    | some c => match c.phase with
      | .sleeping e =>
        if cancelled then some { s with calls := s.calls.set n { c with phase := .returned (.error e) } }
        else some { s with calls := s.calls.set n { c with attempt := c.attempt + 1, phase := .updating } }
      | _ => none

/-- `Latest` starts as the empty response. -/
def emptyInfo : TeeInfoResponse := ⟨0, 0, [], [], []⟩

/-- The refresh starts with the empty response. -/
def system : Lts.System State Event where
  init s := ∃ now, s = ⟨⟨some emptyInfo, now, none⟩, [], []⟩
  step := step pkg cfg

end System

/-! ## Readiness -/

/-- The errors of the readiness probe. -/
inductive ReadyErr
  | startUpNotFinished
  | redis (e : PkgErr)
  | indexerDelay (e : PkgErr)
  | infoServiceUninitialized
  | noNewInfo (delay : Duration)
  | attestation (e : VerifyErr)
  | resultStorage (e : Result.StoreErr)
  deriving DecidableEq

/-- What a probe finds besides the info service: its startup flag, the answers
of Redis and the indexer, the clock and the result service's error. -/
structure Probe where
  startUpFinished : Bool
  ping : Except PkgErr Unit
  checkDelay : Except PkgErr Unit
  since : Time → Duration
  lastStorageErr : Option Result.StoreErr

def infoDelayTolerance : Duration := 140 * GoTime.second

def ready (p : Probe) (info : Option Service) : Except ReadyErr Unit := do
  if !p.startUpFinished then throw .startUpNotFinished
  p.ping.mapError .redis
  p.checkDelay.mapError .indexerDelay
  match info with
  | none => .error .infoServiceUninitialized
  | some info =>
    if p.since info.lastUpdated > infoDelayTolerance then .error (.noNewInfo (p.since info.lastUpdated))
    else match info.lastAttestationErr with
      | some e => .error (.attestation e)
      | none => match p.lastStorageErr with
        | some e => .error (.resultStorage e)
        | none => .ok ()

/-! ## What a step can do -/

section Inversion

variable {pkg : InfoPkg} {cfg : Option AttestationConfig} {s s' : State}

/-- An attempt ends: it could not send its request, or it is over with the
response. -/
inductive Ends (pkg : InfoPkg) (cfg : Option AttestationConfig) (s : State) :
    Event → Nat → Except RefreshErr TeeInfoResponse → Prop
  | unsent {n c block id enqueued cancelled err} : s.calls[n]? = some c → c.phase = .updating →
      sendRequest pkg block id enqueued = .error err →
      Ends pkg cfg s (.request n block id enqueued cancelled) n (.error err)
  | answered {n c challenge action waited token now cancelled} : s.calls[n]? = some c →
      c.phase = .waiting challenge action →
      Ends pkg cfg s (.respond n waited token now cancelled) n (readResponse pkg cfg challenge waited token)

/-- **Everything a step can do.** -/
inductive Step (pkg : InfoPkg) (cfg : Option AttestationConfig) (s : State) : Event → State → Prop
  | called {attempts} : Step pkg cfg s (.retryUpdate attempts) { s with calls := s.calls ++ [⟨attempts, 1, .updating⟩] }
  | sent {n c block id enqueued cancelled challenge action} : s.calls[n]? = some c → c.phase = .updating →
      sendRequest pkg block id enqueued = .ok (challenge, action) →
      Step pkg cfg s (.request n block id enqueued cancelled) { s with
        calls := s.calls.set n { c with phase := .waiting challenge action }
        sent := s.sent ++ [⟨n, c.attempt, challenge, action⟩] }
  | failed {e n c err cancelled now} : s.calls[n]? = some c → (∀ res, c.phase ≠ .returned res) →
      Ends pkg cfg s e n (.error err) →
      Step pkg cfg s e { s with
        service := s.service.record now (.error err), calls := s.calls.set n (c.next cancelled (.error err)) }
  | published {n c challenge action waited token now cancelled result} : s.calls[n]? = some c →
      c.phase = .waiting challenge action → readResponse pkg cfg challenge waited token = .ok result →
      Step pkg cfg s (.respond n waited token now cancelled) { s with
        service := s.service.record now (.ok result),
        calls := s.calls.set n { c with phase := .returned (.ok challenge) } }
  | woke {n c err cancelled c'} : s.calls[n]? = some c → c.phase = .sleeping err → c'.attempt ≥ c.attempt →
      (∀ challenge action, c'.phase ≠ .waiting challenge action) → (c'.phase = .updating → c'.attempt > c.attempt) →
      Step pkg cfg s (.wake n cancelled) { s with calls := s.calls.set n c' }

theorem Service.record_of_unsent {block id : Except PkgErr Hash} {enqueued : Except PkgErr Unit} {err : RefreshErr}
    (h : sendRequest pkg block id enqueued = .error err) (svc : Service) (now : Time) :
    svc.record now (.error err) = svc := by
  unfold sendRequest at h
  simp only [Except.bind_error_iff, Except.mapError_error_iff] at h
  rcases h with ⟨e, -, rfl⟩ | ⟨challenge, -, ⟨e, -, rfl⟩ | ⟨action, -, ⟨e, -, rfl⟩ | ⟨u, -, h⟩⟩⟩
  · rfl
  · rfl
  · rfl
  · cases h

theorem step_inv {e : Event} (h : step pkg cfg s e = some s') : Step pkg cfg s e s' := by
  cases e with
  | retryUpdate attempts => cases h; exact .called
  | request n block id enqueued cancelled =>
    simp only [step] at h
    split at h
    · cases h
    next c hn =>
    split at h
    next hphase =>
      split at h
      next err hsend =>
        cases h
        have hended : Ends pkg cfg s (.request n block id enqueued cancelled) n (.error err) := .unsent hn hphase hsend
        have hstep : Step pkg cfg s (.request n block id enqueued cancelled) { s with
            service := s.service.record s.service.lastUpdated (.error err)
            calls := s.calls.set n (c.next cancelled (.error err)) } := .failed hn (by simp [hphase]) hended
        rwa [Service.record_of_unsent hsend] at hstep
      next challenge action hsend => cases h; exact .sent hn hphase hsend
    next => cases h
  | respond n waited token now cancelled =>
    simp only [step] at h
    split at h
    · cases h
    next c hn =>
    split at h
    next challenge action hphase =>
      cases h
      have hended : Ends pkg cfg s (.respond n waited token now cancelled) n
          (readResponse pkg cfg challenge waited token) :=
        .answered hn hphase
      cases hres : readResponse pkg cfg challenge waited token with
      | error err =>
        rw [hres] at hended
        exact .failed hn (by simp [hphase]) hended
      | ok result => exact .published hn hphase hres
    next => cases h
  | wake n cancelled =>
    simp only [step] at h
    split at h
    · cases h
    next c hn =>
    split at h
    next err hphase =>
      split at h
      · cases h; exact .woke hn hphase le_rfl (by simp) (by simp)
      · cases h; exact .woke hn hphase (by simp) (by simp) (by simp)
    next => cases h

end Inversion

/-! ## Requests -/

section Requests

variable {pkg : InfoPkg} {cfg : Option AttestationConfig} {s s' : State} {c : Call}

theorem Call.attempt_next (cancelled : Bool) (res : Except RefreshErr Hash) :
    (c.next cancelled res).attempt = c.attempt := by
  cases res with
  | ok => rfl
  | error e => simp only [Call.next]; split <;> rfl

/-- The outcome of an attempt leaves the call sleeping or returned. -/
theorem Call.phase_next (cancelled : Bool) (res : Except RefreshErr Hash) :
    (∃ err, (c.next cancelled res).phase = .sleeping err) ∨ ∃ ret, (c.next cancelled res).phase = .returned ret := by
  cases res with
  | ok challenge => exact .inr ⟨_, rfl⟩
  | error e =>
    simp only [Call.next]
    split
    · exact .inr ⟨_, rfl⟩
    · exact .inl ⟨_, rfl⟩

/-- A call that waits has sent its challenge in this attempt, and no attempt
sends twice. -/
structure SentOK (s : State) : Prop where
  waiting : ∀ n c, s.calls[n]? = some c → ∀ challenge action, c.phase = .waiting challenge action →
    ⟨n, c.attempt, challenge, action⟩ ∈ s.sent
  bound : ∀ x ∈ s.sent, ∃ c, s.calls[x.call]? = some c ∧ x.attempt ≤ c.attempt ∧
    (c.phase = .updating → x.attempt < c.attempt)
  once : (s.sent.map fun x => (x.call, x.attempt)).Nodup

theorem SentOK.set {n : Nat} {c c' : Call} {service : Service} (h : SentOK s) (hn : s.calls[n]? = some c)
    (hwait : ∀ challenge action, c'.phase ≠ .waiting challenge action) (hattempt : c.attempt ≤ c'.attempt)
    (hup : c'.phase = .updating → c.attempt < c'.attempt) :
    SentOK { s with service, calls := s.calls.set n c' } := by
  have hlt : n < s.calls.length := (List.getElem?_eq_some_iff.mp hn).1
  refine ⟨Lts.forall_set (fun challenge action hphase => absurd hphase (hwait _ _)) fun m d _ hm => h.waiting m d hm,
    fun x hx => ?_, h.once⟩
  obtain ⟨d, hd, hle, hlate⟩ := h.bound x hx
  by_cases hxn : x.call = n
  · rw [hxn, hn] at hd
    cases hd
    refine ⟨c', ?_, hle.trans hattempt, fun hphase => hle.trans_lt (hup hphase)⟩
    rw [hxn]
    exact List.getElem?_set_self hlt
  · refine ⟨d, ?_, hle, hlate⟩
    show (s.calls.set n c')[x.call]? = some d
    rw [List.getElem?_set_ne (Ne.symm hxn)]
    exact hd

theorem SentOK.step {e : Event} (h : SentOK s) (hs : Step pkg cfg s e s') : SentOK s' := by
  cases hs with
  | called =>
    refine ⟨Lts.forall_snoc (fun _ _ hphase => (by cases hphase)) h.waiting, fun x hx => ?_, h.once⟩
    obtain ⟨d, hd, hrest⟩ := h.bound x hx
    exact ⟨d, Lts.getElem?_snoc.mpr (.inl hd), hrest⟩
  | @sent n c block id enqueued cancelled challenge action hn hphase hsend =>
    have hlt : n < s.calls.length := (List.getElem?_eq_some_iff.mp hn).1
    refine ⟨Lts.forall_set (fun challenge' action' heq => ?_) fun m d _ hm challenge action hw => ?_,
      fun x hx => ?_, ?_⟩
    · cases heq
      exact List.mem_append_right _ (List.mem_singleton_self _)
    · exact List.mem_append_left _ (h.waiting m d hm challenge action hw)
    · rcases List.mem_append.mp hx with hx | hx
      · obtain ⟨d, hd, hle, hlate⟩ := h.bound x hx
        by_cases hxn : x.call = n
        · rw [hxn, hn] at hd
          cases hd
          exact ⟨{ c with phase := .waiting challenge action }, by rw [hxn]; exact List.getElem?_set_self hlt, hle,
            fun hp => (by cases hp)⟩
        · exact ⟨d, by rw [List.getElem?_set_ne (Ne.symm hxn)]; exact hd, hle, hlate⟩
      · cases List.mem_singleton.mp hx
        exact ⟨_, List.getElem?_set_self hlt, le_rfl, fun hp => (by cases hp)⟩
    · -- an attempt that is about to send has not sent
      rw [List.map_append]
      refine h.once.append (List.nodup_singleton _) (List.disjoint_singleton.mpr fun hmem => ?_)
      obtain ⟨x, hx, heq⟩ := List.mem_map.mp hmem
      obtain ⟨d, hd, -, hlate⟩ := h.bound x hx
      rw [Prod.mk.injEq] at heq
      rw [heq.1, hn] at hd
      cases hd
      exact absurd heq.2 (hlate hphase).ne
  | @failed e n c err cancelled now hn hopen hended =>
    refine h.set hn (fun challenge action hw => ?_) (Call.attempt_next _ _).ge fun hup => ?_
    · rcases Call.phase_next cancelled (.error err) with ⟨_, hp⟩ | ⟨_, hp⟩ <;> rw [hp] at hw <;> cases hw
    · rcases Call.phase_next cancelled (.error err) with ⟨_, hp⟩ | ⟨_, hp⟩ <;> rw [hp] at hup <;> cases hup
  | published hn hphase hres =>
    exact h.set hn (by simp) le_rfl (by simp)
  | woke hn hphase hle hwait hup => exact h.set hn hwait hle hup

theorem sentOK_of_reach (h : Lts.Reach (system pkg cfg) Lts.Free s) : SentOK s := by
  refine h.invariant SentOK ?_ fun s e s' _ ih _ hs => ih.step (step_inv hs)
  rintro s ⟨now, rfl⟩
  exact ⟨fun n c hn => (by cases hn), fun x hx => (by cases hx), List.nodup_nil⟩

end Requests

/-! ## What is published, and what stays -/

section Sticky

variable {pkg : InfoPkg} {cfg : AttestationConfig} {s s' t : State} {e : Event} {n : Nat} {challenge : Hash}
  {waited : Except Result.WaitErr ActionResponse} {token : Except PkgErr Unit} {result : TeeInfoResponse}

/-- The response is signed with its own TEE key, and its attestation passes for
the challenge. -/
structure Verified (pkg : InfoPkg) (cfg : AttestationConfig) (challenge : Hash) (token : Except PkgErr Unit)
    (response : ActionResponse) (result : TeeInfoResponse) : Prop where
  data : pkg.unmarshalInfo response.result.data = .ok result
  signature : ∃ teeID signingHash, parseTeeID pkg result = .ok teeID ∧
    pkg.payloadHash result.chainID (pkg.resultHash response.result) = .ok signingHash ∧
    pkg.verifySignature signingHash response.signature teeID = .ok ()
  attestation : verify pkg cfg token result challenge = .ok ()

theorem readResponse_ok (h : readResponse pkg (some cfg) challenge waited token = .ok result) :
    ∃ response, waited = .ok response ∧ Verified pkg cfg challenge token response result := by
  unfold readResponse verifyResponse at h
  simp only [Except.bind_ok_iff, Except.mapError_ok_iff, Except.ite_throw_ok_iff, Except.pure_ok_iff] at h
  obtain ⟨response, hw, -, r, hdata, u, ⟨teeID, hid, signingHash, hhash, u', hsig, hverify⟩, rfl⟩ := h
  exact ⟨response, hw, hdata, ⟨teeID, signingHash, hid, hhash, hsig⟩, hverify⟩

/-- The call `n` publishes: a response, verified for the challenge that was
sent in this attempt. -/
structure Publishes (pkg : InfoPkg) (cfg : AttestationConfig) (s : State) (e : Event) (s' : State) (n : Nat)
    (result : TeeInfoResponse) : Prop where
  ends : Ends pkg (some cfg) s e n (.ok result)
  verified : ∃ c challenge action response token now cancelled, e = .respond n (.ok response) token now cancelled ∧
    s.calls[n]? = some c ∧ ⟨n, c.attempt, challenge, action⟩ ∈ s.sent ∧
    (∀ x ∈ s.sent, x.call = n → x.attempt = c.attempt → x.challenge = challenge) ∧
    Verified pkg cfg challenge token response result ∧ s'.service.lastUpdated = now
  latest : s'.service.latest = some result

theorem Service.record_error (svc : Service) (now : Time) (err : RefreshErr) :
    (svc.record now (.error err)).latest = svc.latest ∧
      (svc.record now (.error err)).lastUpdated = svc.lastUpdated := by
  cases err <;> exact ⟨rfl, rfl⟩

theorem Ends.unique {cfg : Option AttestationConfig} {m : Nat} {res res' : Except RefreshErr TeeInfoResponse}
    (h : Ends pkg cfg s e n res) (h' : Ends pkg cfg s e m res') : m = n ∧ res' = res := by
  cases h with
  | unsent _ _ hsend =>
    cases h' with
    | unsent _ _ hsend' =>
      rw [hsend] at hsend'
      cases hsend'
      exact ⟨rfl, rfl⟩
  | answered hn hphase =>
    cases h' with
    | answered hn' hphase' =>
      rw [hn] at hn'
      cases hn'
      rw [hphase] at hphase'
      cases hphase'
      exact ⟨rfl, rfl⟩

theorem publishes_or_same (h : Lts.Reach (system pkg (some cfg)) Lts.Free s) (hs : Step pkg (some cfg) s e s') :
    (s'.service.latest = s.service.latest ∧ s'.service.lastUpdated = s.service.lastUpdated) ∨
      ∃ n result, Publishes pkg cfg s e s' n result := by
  cases hs with
  | called | sent | woke => exact .inl ⟨rfl, rfl⟩
  | failed => exact .inl (Service.record_error _ _ _)
  | @published n c challenge action waited token now cancelled result hn hphase hres =>
    obtain ⟨response, rfl, hverified⟩ := readResponse_ok hres
    have hok := sentOK_of_reach h
    have hsent := hok.waiting n c hn challenge action hphase
    refine .inr ⟨n, result, hres ▸ .answered hn hphase, ⟨c, challenge, action, response, token, now, cancelled, rfl, hn,
      hsent, fun x hx hcall hattempt => ?_, hverified, rfl⟩, rfl⟩
    have hsame : x = ⟨n, c.attempt, challenge, action⟩ :=
      List.inj_on_of_nodup_map hok.once hx hsent (Prod.ext hcall hattempt)
    rw [hsame]

/-- What a later state keeps: an attestation error, and the calls that have
returned. -/
structure Keeps (s t : State) : Prop where
  attestation : s.service.lastAttestationErr ≠ none → t.service.lastAttestationErr ≠ none
  returned : ∀ (n : Nat) (c : Call) res, s.calls[n]? = some c → c.phase = .returned res → t.calls[n]? = some c

theorem Keeps.set {n : Nat} {c c' : Call} {service : Service} (hn : s.calls[n]? = some c)
    (hopen : ∀ res, c.phase ≠ .returned res)
    (hkeep : s.service.lastAttestationErr ≠ none → service.lastAttestationErr ≠ none) {sent : List Sent} :
    Keeps s ⟨service, s.calls.set n c', sent⟩ := by
  refine ⟨hkeep, fun m d res hd hphase => ?_⟩
  have hne : n ≠ m := by
    rintro rfl
    rw [hn] at hd
    cases hd
    exact hopen res hphase
  show (s.calls.set n c')[m]? = some d
  rw [List.getElem?_set_ne hne]
  exact hd

theorem Service.record_keeps (svc : Service) (now : Time) (res : Except RefreshErr TeeInfoResponse)
    (h : svc.lastAttestationErr ≠ none) : (svc.record now res).lastAttestationErr ≠ none := by
  cases res with
  | ok => exact h
  | error err => cases err <;> first | exact h | simp [Service.record]

theorem Step.keeps {cfg : Option AttestationConfig} (hs : Step pkg cfg s e s') : Keeps s s' := by
  cases hs with
  | called =>
    exact ⟨id, fun m d res hd hphase => Lts.getElem?_snoc.mpr (.inl hd)⟩
  | sent hn hphase => exact .set hn (by simp [hphase]) id
  | failed hn hopen => exact .set hn hopen (Service.record_keeps _ _ _)
  | published hn hphase => exact .set hn (by simp [hphase]) (Service.record_keeps _ _ _)
  | woke hn hphase => exact .set hn (by simp [hphase]) id

theorem keeps_of_later {cfg : Option AttestationConfig} (h : Lts.Reach (system pkg cfg) Lts.Free s)
    (hl : Lts.Later (system pkg cfg) Lts.Free s t) : Keeps s t := by
  refine hl.relation Keeps (fun s => ⟨id, fun _ _ _ h _ => h⟩) (fun a b c hab hbc => ?_)
    (fun s e s' _ _ hs => (step_inv hs).keeps) h
  exact ⟨fun h => hbc.attestation (hab.attestation h),
    fun n d res hd hphase => hbc.returned n d res (hab.returned n d res hd hphase) hphase⟩

theorem ready_ne_ok {svc : Service} (h : svc.lastAttestationErr ≠ none) (p : Probe) : ready p (some svc) ≠ .ok () := by
  intro hready
  unfold ready at hready
  simp only [Except.ite_throw_ok_iff, Except.bind_ok_iff] at hready
  obtain ⟨-, -, -, -, -, hready⟩ := hready
  split at hready
  · cases hready
  · split at hready
    · cases hready
    next hnone => exact h hnone

/-- **Attestation failures are sticky and publish nothing.** A step leaves
`Latest` and `LastUpdated`, or it publishes a response that is verified for
the challenge of its attempt. An attempt that fails leaves them. After one
that failed at the attestation, the error stays, every probe fails, and its
call has returned and stays so. -/
theorem attestation_failures_sticky (h : Lts.Reach (system pkg (some cfg)) Lts.Free s)
    (hs : (system pkg (some cfg)).step s e = some s') :
    ((s'.service.latest = s.service.latest ∧ s'.service.lastUpdated = s.service.lastUpdated) ∨
      ∃ n result, Publishes pkg cfg s e s' n result) ∧
    (∀ n err, Ends pkg (some cfg) s e n (.error err) →
      s'.service.latest = s.service.latest ∧ s'.service.lastUpdated = s.service.lastUpdated) ∧
    ∀ n err, Ends pkg (some cfg) s e n (.error (.verifyAttestation err)) →
      ∀ t, Lts.Later (system pkg (some cfg)) Lts.Free s' t →
        t.service.lastAttestationErr ≠ none ∧ (∀ p, ready p (some t.service) ≠ .ok ()) ∧
        ∃ c, s'.calls[n]? = some c ∧ c.phase = .returned (.error (.verifyAttestation err)) ∧ t.calls[n]? = some c := by
  have hinv := step_inv hs
  have hpub := publishes_or_same h hinv
  refine ⟨hpub, fun n err hended => ?_, fun n err hended t hl => ?_⟩
  · rcases hpub with hsame | ⟨m, result, hp⟩
    · exact hsame
    · cases (hended.unique hp.ends).2
  · -- the failure is written, and its call returns
    obtain ⟨herr, c, hc, hphase⟩ : s'.service.lastAttestationErr ≠ none ∧ ∃ c, s'.calls[n]? = some c ∧
        c.phase = .returned (.error (.verifyAttestation err)) := by
      cases hinv with
      | called => cases hended
      | @sent m c block id enqueued cancelled challenge action hn hphase hsend =>
        cases hended with
        | unsent _ _ hsend' => rw [hsend] at hsend'; cases hsend'
      | @failed e m c err' cancelled now hn hopen hended' =>
        obtain ⟨rfl, heq⟩ := hended.unique hended'
        cases heq
        refine ⟨by simp [Service.record], _, List.getElem?_set_self (List.getElem?_eq_some_iff.mp hn).1, ?_⟩
        simp [Call.next, RefreshErr.retryable]
      | @published m c challenge action waited token now cancelled result hn hphase hres =>
        have hok : Ends pkg (some cfg) s (.respond m waited token now cancelled) m (.ok result) :=
          hres ▸ .answered hn hphase
        cases (hended.unique hok).2
      | woke => cases hended
    have hkeeps := keeps_of_later (h.step trivial hs) hl
    have hlater := hkeeps.attestation herr
    exact ⟨hlater, ready_ne_ok hlater, c, hc, hphase, hkeeps.returned n c _ hc hphase⟩

end Sticky

/-- A response is its challenge and its token, one byte each. -/
def plainInfo : InfoPkg where
  magicPass := [1]
  marshalRequest _ := .ok []
  marshalDirect msg := .ok msg
  unmarshalInfo data := .ok ⟨.ofNat 256 (data.headD 0).toNat, 0, [], [], data.drop 1⟩
  parsePubKey key := .ok key
  pubkeyToAddress _ := 0
  resultHash _ := 0
  payloadHash _ h := .ok h
  verifySignature _ _ _ := .ok ()

/-- Attestation without the sentinel, on chain 0. -/
def plainAttestation : AttestationConfig := ⟨true, 0, false⟩

/-- The service before its first refresh. -/
def plainState : State := ⟨⟨some emptyInfo, ⟨0, 0, none⟩, none⟩, [], []⟩

/-- A response to a challenge, with a token. -/
def answerOf (challenge token : UInt8) : Except Result.WaitErr ActionResponse :=
  .ok ⟨⟨1, .submit, 1, 0, 0, [challenge, token]⟩, []⟩

/-- The node answers the first challenge with the sentinel, which is not
allowed, and the next one with a token. The second response is published, and
no probe succeeds. -/
theorem attestation_failures_sticky_sentinel :
    ∃ t, Lts.Reach (system plainInfo (some plainAttestation)) Lts.Free t ∧ t.service.latest = some ⟨6, 0, [], [], [0]⟩ ∧
      ∀ p, ready p (some t.service) ≠ .ok () := by
  have hrun : ((system plainInfo (some plainAttestation)).run plainState
      [.retryUpdate 3, .request 0 (.ok 5) (.ok 1) (.ok ()) false]).any (fun s =>
        s.calls = [⟨3, 1, .waiting 5 ⟨⟨1, .direct, .submit, []⟩, [], [], [], []⟩⟩] ∧
        (((system plainInfo (some plainAttestation)).step s
          (.respond 0 (answerOf 5 1) (.ok ()) ⟨7, 0, none⟩ false)).bind
          fun s' => (system plainInfo (some plainAttestation)).run s'
            [.retryUpdate 1, .request 1 (.ok 6) (.ok 2) (.ok ()) false,
              .respond 1 (answerOf 6 0) (.ok ()) ⟨8, 0, none⟩ false]).any
          fun t => t.service.latest = some ⟨6, 0, [], [], [0]⟩) := by
    decide +kernel
  obtain ⟨s, hs, hend⟩ := (Option.any_eq_true _ _).mp hrun
  obtain ⟨hcalls, hlater⟩ := of_decide_eq_true hend
  obtain ⟨t, ht, hlatest⟩ := (Option.any_eq_true _ _).mp hlater
  obtain ⟨s', hs', ht⟩ := Option.bind_eq_some_iff.mp ht
  have hreach : Lts.Reach (system plainInfo (some plainAttestation)) Lts.Free s :=
    .of_run (.init ⟨_, rfl⟩) (fun _ _ _ => trivial) hs
  have hlater : Lts.Later (system plainInfo (some plainAttestation)) Lts.Free s' t :=
    .of_run .refl (fun _ _ _ => trivial) ht
  have hended : Ends plainInfo (some plainAttestation) s (.respond 0 (answerOf 5 1) (.ok ()) ⟨7, 0, none⟩ false) 0
      (.error (.verifyAttestation .magicPassDisabled)) := by
    have hn : s.calls[0]? = some ⟨3, 1, .waiting 5 ⟨⟨1, .direct, .submit, []⟩, [], [], [], []⟩⟩ := by rw [hcalls]; rfl
    have hres : readResponse plainInfo (some plainAttestation) 5 (answerOf 5 1) (.ok ()) =
        .error (.verifyAttestation .magicPassDisabled) := by
      decide +kernel
    rw [← hres]
    exact .answered hn rfl
  have hsticky := (attestation_failures_sticky hreach hs').2.2 0 .magicPassDisabled hended t hlater
  exact ⟨t, (hreach.step trivial hs').later hlater, of_decide_eq_true hlatest, hsticky.2.1⟩

end TeeProxy.Info
