/-
Processing of the node's results (`internal/service/result`).

`ProcessAndStore` checks who signed a response, passes its result on to the
other services, and stores the response. It holds the read lock from the
check to the end, and `SetIdentity` needs the write lock: other calls run
between the phases of a call, but the identity is set only when no call is
between them. What the storage answers is part of the event.
-/
import TeeProxy.Lib.Lts
import TeeProxy.RedisStorage

namespace TeeProxy.Result

/-- What a signature is checked with: go-flare-common's signing payload, the
result's hash, and go-ethereum's text hash and key recovery. -/
structure SigningPkg where
  resultHash : ActionResult → Hash
  payloadHash : UInt64 → Hash → Except PkgErr Hash
  textHash : Hash → Hash
  sigToPub : Hash → Bytes → Except PkgErr Bytes
  pubkeyToAddress : Bytes → Address

/-- `recoverSigner`: who signed the response for the chain. -/
def recoverSigner (pkg : SigningPkg) (r : ActionResponse) (chainID : UInt64) : Except PkgErr Address :=
  match pkg.payloadHash chainID (pkg.resultHash r.result) with
  | .error e => .error e
  | .ok signHash => match pkg.sigToPub (pkg.textHash signHash) r.signature with
    | .error e => .error e
    | .ok pub => .ok (pkg.pubkeyToAddress pub)

/-- The errors of `StoreResponse`. -/
inductive StoreErr
  | reading (e : StorageErr)
  | overrideFinal
  | overrideTransient
  | storing (e : StorageErr)
  deriving DecidableEq, Repr

/-- `StoreResponse`: `existing` is the answer of the storage for the response's
key, and `written` the outcome of the write. -/
def storeResponse (existing : Except StorageErr (Option ActionResponse)) (written : Except StorageErr Unit)
    (r : ActionResponse) : Except StoreErr Unit :=
  let write : Except StoreErr Unit := match written with
    | .error e => .error (.storing e)
    | .ok () => .ok ()
  match existing with
  | .error .notFound => write
  | .error e => .error (.reading e)
  | .ok none => write
  | .ok (some res) =>
    if res.result.status < 2 then .error .overrideFinal
    else if r.result.status ≥ 2 ∧ res.result.status ≥ r.result.status then .error .overrideTransient
    else write

/-! ## The service -/

/-- The channels to the other services. -/
inductive Channel
  | keyActions | backups | backupTrigger
  deriving DecidableEq, Repr

/-- The capacities of the channels. -/
def Channel.size : Channel → Nat
  | .keyActions => 1000
  | .backups => 1000
  | .backupTrigger => 1

/-- The channel a result is passed on to. -/
def hook (op : OpPkg) (r : ActionResult) : Option Channel :=
  if r.status = 1 ∧ r.submissionTag ≠ .end then
    if r.opCommand = op.commandHash .keyGenerate ∨ r.opCommand = op.commandHash .keyDataProviderRestore ∨
        r.opCommand = op.commandHash .keyDirectRestore ∨ r.opCommand = op.commandHash .keyDelete then
      some .keyActions
    else if r.opCommand = op.commandHash .teeBackup then some .backups
    else if r.opCommand = op.commandHash .updatePolicy then some .backupTrigger
    else none
  else none

/-- The errors of the signer check. -/
inductive ProcessErr
  | recoveringSigner (e : PkgErr)
  | invalidTeeID (signer expected : Address)
  | bootstrapNotTeeInfo
  deriving DecidableEq, Repr

/-- The check of `ProcessAndStore`, under the read lock. -/
def checkSigner (op : OpPkg) (pkg : SigningPkg) (chainID : UInt64) (teeID : Address) (r : ActionResponse) :
    Except ProcessErr Unit :=
  if teeID ≠ 0 then
    match recoverSigner pkg r chainID with
    | .error e => .error (.recoveringSigner e)
    | .ok signer => if signer ≠ teeID then .error (.invalidTeeID signer teeID) else .ok ()
  else if r.result.opCommand ≠ op.commandHash .teeInfo then .error .bootstrapNotTeeInfo
  else .ok ()

/-- A call that holds the read lock: its number, and whether it has been
through its hooks. -/
structure Call where
  number : Nat
  response : ActionResponse
  hooked : Bool

/-- A message for a channel, with the call and the response it comes from. -/
structure Message where
  channel : Channel
  call : Nat
  response : ActionResponse

/-- A response written to the storage, and the identity at that moment. -/
structure Written where
  call : Nat
  response : ActionResponse
  teeID : Address

/-- The service, the calls between their phases, what is on the channels, and
of the past: the responses of all calls, the messages ever put on a channel,
and the responses ever given to the storage to write. -/
structure State where
  teeID : Address
  lastStorageErr : Option StoreErr
  calls : List Call
  onChannels : List Message
  requests : List ActionResponse
  sent : List Message
  written : List Written

/-- A call starts or goes on, or a channel is read. -/
inductive Event
  | setIdentity (teeID : Address)
  | process (r : ActionResponse)
  | passOn (n : Nat)
  | store (n : Nat) (existing : Except StorageErr (Option ActionResponse)) (written : Except StorageErr Unit)
  | receive (c : Channel)

section System

variable (op : OpPkg) (pkg : SigningPkg) (chainID : UInt64)

/-- The check, the hook and the store of a call are steps of their own. -/
def step (s : State) : Event → Option State
  | .setIdentity teeID =>
    if s.calls.isEmpty then
      if s.teeID ≠ 0 then some s else some { s with teeID }
    else none
  | .process r =>
    -- A zero action ID is a delivery-failure notification, and discarded.
    if r.result.id = 0 then some { s with requests := s.requests ++ [r] }
    else match checkSigner op pkg chainID s.teeID r with
      | .error _ => some { s with requests := s.requests ++ [r] }
      | .ok () => some { s with
          requests := s.requests ++ [r]
          calls := s.calls ++ [⟨s.requests.length, r, false⟩] }
  | .passOn n => match s.calls[n]? with
    | some ⟨number, r, false⟩ =>
      match hook op r.result with
      | none => some { s with calls := s.calls.set n ⟨number, r, true⟩ }
      | some c =>
        -- A message for a full channel is dropped.
        if (s.onChannels.filter (·.channel = c)).length < c.size then
          some { s with
            calls := s.calls.set n ⟨number, r, true⟩
            onChannels := s.onChannels ++ [⟨c, number, r⟩]
            sent := s.sent ++ [⟨c, number, r⟩] }
        else some { s with calls := s.calls.set n ⟨number, r, true⟩ }
    | _ => none
  | .store n existing written => match s.calls[n]? with
    | some ⟨number, r, true⟩ =>
      let calls := s.calls.eraseIdx n
      let tried : List Written := s.written ++ [⟨number, r, s.teeID⟩]
      match storeResponse existing written r with
      | .ok () => some { s with calls, lastStorageErr := none, written := tried }
      | .error (.storing e) => some { s with calls, lastStorageErr := some (.storing e), written := tried }
      | .error (.reading e) => some { s with calls, lastStorageErr := some (.reading e) }
      -- A refused override is no storage failure.
      | .error .overrideFinal => some { s with calls }
      | .error .overrideTransient => some { s with calls }
    | _ => none
  | .receive c =>
    if s.onChannels.any (·.channel = c) then
      some { s with onChannels := s.onChannels.eraseP (·.channel = c) }
    else none

def start : State := ⟨0, none, [], [], [], [], []⟩

def system : Lts.System State Event where
  init s := s = start
  step := step op pkg chainID

end System

/-! ## What a step can do -/

section Inversion

variable {op : OpPkg} {pkg : SigningPkg} {chainID : UInt64}

/-- The calls are among those of the state. -/
def Among (s : State) (calls : List Call) : Prop :=
  ∀ c ∈ calls, ∃ c' ∈ s.calls, c'.number = c.number ∧ c'.response = c.response

theorem among_refl (s : State) : Among s s.calls := fun c hc => ⟨c, hc, rfl, rfl⟩

theorem among_eraseIdx (s : State) (n : Nat) : Among s (s.calls.eraseIdx n) :=
  fun c hc => ⟨c, List.mem_of_mem_eraseIdx hc, rfl, rfl⟩

theorem among_set {s : State} {n number : Nat} {r : ActionResponse} {b : Bool}
    (h : s.calls[n]? = some ⟨number, r, b⟩) (b' : Bool) : Among s (s.calls.set n ⟨number, r, b'⟩) := by
  intro c hc
  rcases List.mem_or_eq_of_mem_set hc with hc | rfl
  · exact ⟨c, hc, rfl, rfl⟩
  · exact ⟨_, List.mem_of_getElem? h, rfl, rfl⟩

/-- **Everything a step can do** to the identity, the calls and the history. -/
inductive Step (op : OpPkg) (pkg : SigningPkg) (chainID : UInt64) (s : State) : Event → State → Prop
  | identified {teeID} : s.calls = [] → s.teeID = 0 → Step op pkg chainID s (.setIdentity teeID) { s with teeID }
  | turnedAway {r} : Step op pkg chainID s (.process r) { s with requests := s.requests ++ [r] }
  | accepted {r} : r.result.id ≠ 0 → checkSigner op pkg chainID s.teeID r = .ok () →
      Step op pkg chainID s (.process r) { s with
        requests := s.requests ++ [r], calls := s.calls ++ [⟨s.requests.length, r, false⟩] }
  | moved {e lastStorageErr calls onChannels} : Among s calls →
      Step op pkg chainID s e { s with lastStorageErr, calls, onChannels }
  | sent {n c calls onChannels} {call : Call} : call ∈ s.calls → hook op call.response.result = some c →
      Among s calls →
      Step op pkg chainID s (.passOn n) { s with
        calls, onChannels, sent := s.sent ++ [⟨c, call.number, call.response⟩] }
  | stored {n existing written calls lastStorageErr} {call : Call} : call ∈ s.calls → Among s calls →
      Step op pkg chainID s (.store n existing written) { s with
        lastStorageErr, calls, written := s.written ++ [⟨call.number, call.response, s.teeID⟩] }

theorem step_inv {s s' : State} {e : Event} (h : step op pkg chainID s e = some s') : Step op pkg chainID s e s' := by
  cases e with
  | setIdentity teeID =>
    simp only [step] at h
    split at h
    next hcalls =>
      split at h
      · cases h; exact .moved (among_refl s)
      next hz => cases h; exact .identified (List.isEmpty_iff.mp hcalls) (not_not.mp hz)
    next => cases h
  | process r =>
    simp only [step] at h
    split at h
    · cases h; exact .turnedAway
    next hid =>
    split at h
    · cases h; exact .turnedAway
    next hc => cases h; exact .accepted hid hc
  | passOn n =>
    simp only [step] at h
    split at h
    next number r hn =>
      split at h
      · cases h; exact .moved (among_set hn true)
      next c hh =>
        split at h
        · cases h; exact .sent (List.mem_of_getElem? hn) hh (among_set hn true)
        · cases h; exact .moved (among_set hn true)
    next => cases h
  | store n existing written =>
    simp only [step] at h
    split at h
    next number r hn =>
      split at h
      · cases h; exact .stored (List.mem_of_getElem? hn) (among_eraseIdx s n)
      · cases h; exact .stored (List.mem_of_getElem? hn) (among_eraseIdx s n)
      · cases h; exact .moved (among_eraseIdx s n)
      · cases h; exact .moved (among_eraseIdx s n)
      · cases h; exact .moved (among_eraseIdx s n)
    next => cases h
  | receive c =>
    simp only [step] at h
    split at h
    · cases h; exact .moved (among_refl s)
    · cases h

end Inversion

/-! ## Who vouches for a result -/

section Authenticity

variable {op : OpPkg} {pkg : SigningPkg} {chainID : UInt64} {ok : State → Event → Prop}

/-- The response answers an action and is signed by the TEE. -/
def Signed (pkg : SigningPkg) (chainID : UInt64) (teeID : Address) (r : ActionResponse) : Prop :=
  r.result.id ≠ 0 ∧ teeID ≠ 0 ∧ recoverSigner pkg r chainID = .ok teeID

theorem checkSigner_ok {teeID : Address} {r : ActionResponse} (h : checkSigner op pkg chainID teeID r = .ok ()) :
    (teeID ≠ 0 ∧ recoverSigner pkg r chainID = .ok teeID) ∨
      (teeID = 0 ∧ r.result.opCommand = op.commandHash .teeInfo) := by
  unfold checkSigner at h
  split at h
  next hz =>
    split at h
    · cases h
    next signer hr =>
    split at h
    · cases h
    next heq => exact .inl ⟨hz, by rw [hr, not_not.mp heq]⟩
  next hz =>
    split at h
    · cases h
    next hc => exact .inr ⟨not_not.mp hz, not_not.mp hc⟩

theorem opCommand_ne_of_hook {r : ActionResult} {c : Channel} (h : hook op r = some c) :
    r.opCommand ≠ op.commandHash .teeInfo := by
  intro hinfo
  have hne : ∀ {cmd}, cmd ≠ .teeInfo → r.opCommand ≠ op.commandHash cmd := fun hcmd heq =>
    hcmd (op.commandHash_injective (heq.symm.trans hinfo))
  unfold hook at h
  split at h
  · split at h
    next hcmd => rcases hcmd with hcmd | hcmd | hcmd | hcmd <;> exact hne (by decide) hcmd
    split at h
    next hcmd => exact hne (by decide) hcmd
    split at h
    next hcmd => exact hne (by decide) hcmd
    cases h
  · cases h

/-- Every call, message and write is of a posted response that passed the check. -/
structure Authentic (op : OpPkg) (pkg : SigningPkg) (chainID : UInt64) (s : State) : Prop where
  calls : ∀ c ∈ s.calls, s.requests[c.number]? = some c.response ∧ c.response.result.id ≠ 0 ∧
    checkSigner op pkg chainID s.teeID c.response = .ok ()
  sent : ∀ x ∈ s.sent, s.requests[x.call]? = some x.response ∧ hook op x.response.result = some x.channel ∧
    Signed pkg chainID s.teeID x.response
  written : ∀ x ∈ s.written, s.requests[x.call]? = some x.response ∧ x.response.result.id ≠ 0 ∧
    checkSigner op pkg chainID x.teeID x.response = .ok () ∧ (x.teeID = 0 ∨ x.teeID = s.teeID)

theorem Authentic.among {s : State} (h : Authentic op pkg chainID s) {calls : List Call} (ha : Among s calls) :
    ∀ c ∈ calls, s.requests[c.number]? = some c.response ∧ c.response.result.id ≠ 0 ∧
      checkSigner op pkg chainID s.teeID c.response = .ok () := by
  intro c hc
  obtain ⟨c', hc', hnum, hresp⟩ := ha c hc
  rw [← hnum, ← hresp]
  exact h.calls c' hc'

theorem Authentic.request {s : State} (h : Authentic op pkg chainID s) (r : ActionResponse) :
    Authentic op pkg chainID { s with requests := s.requests ++ [r] } :=
  ⟨fun c hc => ⟨Lts.getElem?_snoc.mpr (.inl (h.calls c hc).1), (h.calls c hc).2⟩,
    fun x hx => ⟨Lts.getElem?_snoc.mpr (.inl (h.sent x hx).1), (h.sent x hx).2⟩,
    fun x hx => ⟨Lts.getElem?_snoc.mpr (.inl (h.written x hx).1), (h.written x hx).2⟩⟩

theorem Authentic.step {s s' : State} {e : Event} (h : Authentic op pkg chainID s)
    (hs : Step op pkg chainID s e s') : Authentic op pkg chainID s' := by
  cases hs with
  | identified hcalls hz =>
    refine ⟨?_, fun x hx => absurd hz (h.sent x hx).2.2.2.1, fun x hx => ?_⟩
    · dsimp only; rw [hcalls]; exact fun c hc => by cases hc
    · obtain ⟨hreq, hid, hcheck, hor⟩ := h.written x hx
      exact ⟨hreq, hid, hcheck, .inl (hor.elim (fun h0 => h0) fun heq => heq.trans hz)⟩
  | turnedAway => exact h.request _
  | @accepted r hid hc =>
    refine { h.request r with calls := fun c hmem => ?_ }
    rcases List.mem_append.mp hmem with hmem | hmem
    · exact (h.request r).calls c hmem
    · cases List.mem_singleton.mp hmem
      exact ⟨List.getElem?_concat_length, hid, hc⟩
  | moved ha => exact { h with calls := h.among ha }
  | @sent n c calls onChannels call hmem hh ha =>
    obtain ⟨hreq, hid, hcheck⟩ := h.calls call hmem
    refine { h with calls := h.among ha, sent := fun x hx => ?_ }
    rcases List.mem_append.mp hx with hx | hx
    · exact h.sent x hx
    · cases List.mem_singleton.mp hx
      rcases checkSigner_ok hcheck with ⟨hz, hrec⟩ | ⟨-, hinfo⟩
      · exact ⟨hreq, hh, hid, hz, hrec⟩
      · exact absurd hinfo (opCommand_ne_of_hook hh)
  | @stored n existing written calls err call hmem ha =>
    obtain ⟨hreq, hid, hcheck⟩ := h.calls call hmem
    refine { h with calls := h.among ha, written := fun x hx => ?_ }
    rcases List.mem_append.mp hx with hx | hx
    · exact h.written x hx
    · cases List.mem_singleton.mp hx
      exact ⟨hreq, hid, hcheck, .inr rfl⟩

theorem authentic {s : State} (h : Lts.Reach (system op pkg chainID) ok s) : Authentic op pkg chainID s := by
  refine h.invariant (Authentic op pkg chainID) ?_ fun s e s' _ ih _ hs => ih.step (step_inv hs)
  rintro s rfl
  exact ⟨(fun c hc => by cases hc), (fun x hx => by cases hx), (fun x hx => by cases hx)⟩

theorem teeID_kept {s t : State} (h : Lts.Reach (system op pkg chainID) ok s)
    (hl : Lts.Later (system op pkg chainID) ok s t) : s.teeID ≠ 0 → t.teeID = s.teeID := by
  refine hl.relation (fun s t => s.teeID ≠ 0 → t.teeID = s.teeID) (fun _ _ => rfl) ?_ ?_ h
  · intro a b c hab hbc hz
    rw [hbc (by rwa [hab hz]), hab hz]
  · intro s e s' _ _ hs hz
    cases step_inv hs with
    | identified _ h0 => exact absurd h0 hz
    | turnedAway | accepted | moved | sent | stored => rfl

/-- **Results are authentic over whole runs**, whatever identities, responses,
storage answers and orders the run has: an identity once set never changes;
every message ever put on a channel, and every response ever given to the
storage that is not TEE_INFO, is of a response with a non-zero action ID
signed by that identity; and what was written before it was set is TEE_INFO,
from a call that sent no message. -/
theorem result_authenticity {s : State} (h : Lts.Reach (system op pkg chainID) Lts.Free s) :
    (∀ t, Lts.Later (system op pkg chainID) Lts.Free s t → s.teeID ≠ 0 → t.teeID = s.teeID) ∧
    (∀ x ∈ s.sent, Signed pkg chainID s.teeID x.response) ∧
    (∀ x ∈ s.written, x.response.result.opCommand ≠ op.commandHash .teeInfo →
      Signed pkg chainID s.teeID x.response) ∧
    (∀ x ∈ s.written, x.teeID = 0 → x.response.result.opCommand = op.commandHash .teeInfo ∧
      ∀ y ∈ s.sent, y.call ≠ x.call) := by
  have ha := authentic h
  refine ⟨fun t hl => teeID_kept h hl, fun x hx => (ha.sent x hx).2.2, fun x hx hc => ?_, fun x hx hz => ?_⟩
  · obtain ⟨-, hid, hcheck, hor⟩ := ha.written x hx
    rcases checkSigner_ok hcheck with ⟨hz, hrec⟩ | ⟨-, hinfo⟩
    · have heq := hor.resolve_left hz
      exact ⟨hid, heq ▸ hz, heq ▸ hrec⟩
    · exact absurd hinfo hc
  · obtain ⟨hreq, -, hcheck, -⟩ := ha.written x hx
    have hinfo : x.response.result.opCommand = op.commandHash .teeInfo := by
      rcases checkSigner_ok hcheck with ⟨hnz, -⟩ | ⟨-, hinfo⟩
      · exact absurd hz hnz
      · exact hinfo
    refine ⟨hinfo, fun y hy hcall => ?_⟩
    obtain ⟨hreq', hh, -⟩ := ha.sent y hy
    rw [hcall, hreq, Option.some.injEq] at hreq'
    exact opCommand_ne_of_hook hh (hreq' ▸ hinfo)

end Authenticity

/-! ## A small service -/

/-- A signature names its signer in its first byte. -/
def SigningPkg.named : SigningPkg where
  resultHash _ := 0
  payloadHash _ h := .ok h
  textHash h := h
  sigToPub _ signature := .ok signature
  pubkeyToAddress pub := .ofNat 160 (pub.headD 0).toNat

/-- A wallet response with status 1. -/
def plainResponse (id : Hash) (opCommand : OpCommand) (signature : Bytes) : ActionResponse :=
  ⟨⟨id, .submit, 1, OpPkg.numbered.typeHash .wallet, OpPkg.numbered.commandHash opCommand, []⟩, signature⟩

/-- TEE_INFO is stored before the identity is set, a signed key result after,
and a forged one is turned away. -/
def bootstrapped : List Event :=
  [.process (plainResponse 1 .teeInfo []), .passOn 0, .store 0 (.error .notFound) (.ok ()), .setIdentity 9,
    .process (plainResponse 2 .keyGenerate [8]), .process (plainResponse 2 .keyGenerate [9]), .passOn 0,
    .store 0 (.error .notFound) (.ok ())]

theorem result_authenticity_bootstrapped :
    ∃ s, Lts.Reach (system .numbered .named 0) Lts.Free s ∧ s.teeID = 9 ∧
      s.sent.map Message.response = [plainResponse 2 .keyGenerate [9]] ∧
      s.written.map Written.response = [plainResponse 1 .teeInfo [], plainResponse 2 .keyGenerate [9]] ∧
      ∀ x ∈ s.sent, Signed .named 0 s.teeID x.response := by
  have hrun : ((system .numbered .named 0).run start bootstrapped).any (fun s => s.teeID = 9 ∧
      s.sent.map Message.response = [plainResponse 2 .keyGenerate [9]] ∧
      s.written.map Written.response = [plainResponse 1 .teeInfo [], plainResponse 2 .keyGenerate [9]]) := by
    decide +kernel
  obtain ⟨s, hs, hend⟩ := (Option.any_eq_true _ _).mp hrun
  obtain ⟨hid, hsent, hwritten⟩ := of_decide_eq_true hend
  have hreach : Lts.Reach (system .numbered .named 0) Lts.Free s := .of_run (.init rfl) (fun _ _ _ => trivial) hs
  exact ⟨s, hreach, hid, hsent, hwritten, (result_authenticity hreach).2.1⟩

end TeeProxy.Result
