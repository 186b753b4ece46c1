/-
How the proxy comes to know its TEE (`Run` of `internal/proxy/proxy.go`).

`Run` starts the internal server, and `FetchInfo` asks for the first TEE info.
Until the identity is set nobody's signature is checked: the result service
takes TEE_INFO responses of anyone, and the info service finds its answer among
them. `Run` compares the challenge, starts the refresh, and makes the address of
the TEE's key the identity that all results are checked against from then on.

What `FetchInfo` returns is `Latest` itself, which the refresh writes through. So
the key that becomes the identity may be of a later response than the one whose
challenge `Run` has compared. With attestation enabled it is of an attested one
in any case (`identity_attested`).

A panic ends the process.
-/
import TeeProxy.Custody
import TeeProxy.Info.Attestation

namespace TeeProxy.Boot

open GoTime (Time)
open Result (Delivery SigningPkg Signed)
open Info (InfoPkg TokenPkg VerifyConfig Settings TeeInfoResponse Attested parseTeeID buildAttestationConfig)
open Wallets (WalletPkg BackupService IDPair)

/-! ## The stages -/

/-- `FetchInfo` runs; the refresh has started; the identity is set. -/
inductive Stage
  | fetching
  | running
  | identified
  | panicked
  deriving DecidableEq, Repr

/-- `Run` is at a stage; the info service, and the rest of the proxy. -/
structure State (σ : Type) where
  stage : Stage
  info : Info.State
  rest : Custody.State σ

/-- `respond` is a wait of call `n` that ends with what is stored, and `failed`
one that fails. -/
inductive Event
  | custody (e : Custody.Event)
  | retryUpdate (attempts : Int)
  | request (n : Nat) (block id : Except PkgErr Hash) (enqueued : Except PkgErr Unit) (cancelled : Bool)
  | respond (n : Nat) (token : Except PkgErr Unit) (now : Time) (cancelled : Bool)
  | failed (n : Nat) (e : Result.WaitErr) (token : Except PkgErr Unit) (now : Time) (cancelled : Bool)
  | wake (n : Nat) (cancelled : Bool)
  | checkChallenge
  | identify

/-- What the other services do at a stage. Only `Run` sets the identity, and the
wallet service starts after it. -/
def admits (stage : Stage) : Custody.Event → Bool
  | .deliver (.setIdentity _) => false
  | .deliver _ => true
  | _ => stage = .identified

section System

variable {ε σ : Type} (op : OpPkg) (sig : SigningPkg) (chainID : UInt64) (wallets : WalletPkg) (bs : BackupService ε σ)
  (pkg : InfoPkg) (cfg : VerifyConfig)

/-- What the info service does. `FetchInfo` calls `retryUpdate` once, without a
limit of attempts, and the refresh calls it again and again. -/
def infoEvent (s : State σ) : Event → Option Info.Event
  | .retryUpdate attempts =>
    if s.stage = .fetching ∧ s.info.calls = [] ∧ attempts = 0 ∨ s.stage = .running ∨ s.stage = .identified then
      some (.retryUpdate attempts) else none
  | .request n block id enqueued cancelled => some (.request n block id enqueued cancelled)
  | .respond n token now cancelled => match s.info.calls[n]?.map Info.Call.phase with
    | some (.waiting _ action) =>
      (s.rest.results.stored.get? (action.data.id, action.data.submissionTag)).map fun response =>
        .respond n (.ok response) token now cancelled
    | _ => none
  | .failed n e token now cancelled => some (.respond n (.error e) token now cancelled)
  | .wake n cancelled => some (.wake n cancelled)
  | _ => none

/-- A panicked process takes no step. `checkChallenge` compares the challenges,
and `identify` reads the key through `Latest` and sets the identity. -/
def step (s : State σ) (e : Event) : Option (State σ) :=
  if s.stage = .panicked then none
  else match e with
    | .custody e =>
      if admits s.stage e then
        (Custody.step op sig chainID wallets bs s.rest e).map fun rest => { s with rest } else none
    | .checkChallenge => match s.stage, s.info.calls[0]?.map Info.Call.phase with
      | .fetching, some (.returned (.error _)) => some { s with stage := .panicked }
      | .fetching, some (.returned (.ok sentChallenge)) => match s.info.service.latest with
        | none => some { s with stage := .panicked }
        | some initialInfo =>
          if initialInfo.challenge ≠ sentChallenge then some { s with stage := .panicked }
          else some { s with stage := .running }
      | _, _ => none
    | .identify => match s.stage, s.info.service.latest with
      | .running, some initialInfo => match parseTeeID pkg initialInfo with
        | .error _ => some { s with stage := .panicked }
        | .ok teeID =>
          if s.rest.results.service.teeID ≠ 0 then some { s with stage := .panicked }
          else (Custody.step op sig chainID wallets bs s.rest (.deliver (.setIdentity teeID))).map fun rest =>
            { s with stage := .identified, rest }
      | _, _ => none
    | e => match infoEvent s e with
      | none => none
      | some f => (Info.step pkg (some cfg.toAttestationConfig) s.info f).map fun info => { s with info }

/-- `Run` begins with empty stores and the empty TEE info. -/
def system : Lts.System (State σ) Event where
  init s := ∃ now node st, Custody.Blank bs st ∧
    s = ⟨.fetching, ⟨⟨some Info.emptyInfo, now, none⟩, [], []⟩, Custody.start node st⟩
  step := step op sig chainID wallets bs pkg cfg

/-- The tokens of responses are judged by `verifyToken`. -/
def Judged (tok : TokenPkg) (s : State σ) (e : Event) : Prop :=
  ∀ f, infoEvent s e = some f → Info.Judged pkg tok cfg s.info f

end System

/-! ## What a step can do -/

section Inversion

variable {ε σ : Type} {op : OpPkg} {sig : SigningPkg} {chainID : UInt64} {wallets : WalletPkg} {bs : BackupService ε σ}
  {pkg : InfoPkg} {cfg : VerifyConfig} {s s' : State σ}

/-- **Everything a step can do.** -/
inductive Step (op : OpPkg) (sig : SigningPkg) (chainID : UInt64) (wallets : WalletPkg) (bs : BackupService ε σ)
    (pkg : InfoPkg) (cfg : VerifyConfig) (s : State σ) : Event → State σ → Prop
  | moved {e rest} : admits s.stage e = true → Custody.step op sig chainID wallets bs s.rest e = some rest →
      Step op sig chainID wallets bs pkg cfg s (.custody e) { s with rest }
  | refreshed {e f info} : infoEvent s e = some f →
      Info.step pkg (some cfg.toAttestationConfig) s.info f = some info →
      Step op sig chainID wallets bs pkg cfg s e { s with info }
  | panicked {e} : Step op sig chainID wallets bs pkg cfg s e { s with stage := .panicked }
  | compared {sentChallenge} : s.stage = .fetching →
      s.info.calls[0]?.map Info.Call.phase = some (.returned (.ok sentChallenge)) →
      Step op sig chainID wallets bs pkg cfg s .checkChallenge { s with stage := .running }
  | identified {initialInfo teeID rest} : s.stage = .running → s.info.service.latest = some initialInfo →
      parseTeeID pkg initialInfo = .ok teeID →
      Custody.step op sig chainID wallets bs s.rest (.deliver (.setIdentity teeID)) = some rest →
      Step op sig chainID wallets bs pkg cfg s .identify { s with stage := .identified, rest }

theorem step_inv {e : Event} (h : step op sig chainID wallets bs pkg cfg s e = some s') :
    Step op sig chainID wallets bs pkg cfg s e s' := by
  unfold step at h
  split at h
  · cases h
  split at h
  next e =>
    split at h
    next hadmits =>
      obtain ⟨rest, hrest, rfl⟩ := Option.map_eq_some_iff.mp h
      exact .moved hadmits hrest
    next => cases h
  next =>
    split at h
    · cases h; exact .panicked
    next hstage hcall =>
      split at h
      · cases h; exact .panicked
      · split at h
        · cases h; exact .panicked
        · cases h; exact .compared hstage hcall
    next => cases h
  next =>
    split at h
    next hstage hlatest =>
      split at h
      · cases h; exact .panicked
      next hid =>
        split at h
        · cases h; exact .panicked
        · obtain ⟨rest, hrest, rfl⟩ := Option.map_eq_some_iff.mp h
          exact .identified hstage hlatest hid hrest
    next => cases h
  next =>
    split at h
    · cases h
    next hf =>
      obtain ⟨info, hinfo, rfl⟩ := Option.map_eq_some_iff.mp h
      exact .refreshed hf hinfo

end Inversion

/-! ## The identity -/

section Identity

variable {ε σ : Type} {op : OpPkg} {sig : SigningPkg} {chainID : UInt64} {wallets : WalletPkg} {bs : BackupService ε σ}
  {pkg : InfoPkg} {cfg : VerifyConfig} {tok : TokenPkg} {a : Settings} {s s' : State σ}
  {ok : State σ → Event → Prop}

/-- A step of the result service that does not set the identity keeps it. -/
theorem teeID_of_step {v v' : Result.State} {f : Result.Event} (h : Result.step op sig chainID v f = some v')
    (hf : ∀ teeID, f ≠ .setIdentity teeID) : v'.teeID = v.teeID := by
  cases Result.step_inv h with
  | identified => exact absurd rfl (hf _)
  | _ => rfl

theorem requests_of_step {v v' : Result.State} {f : Result.Event} (h : Result.step op sig chainID v f = some v') :
    v.requests ⊆ v'.requests := by
  cases Result.step_inv h with
  | turnedAway | accepted => exact List.subset_append_left _ _
  | _ => exact List.Subset.refl _

theorem teeID_of_deliver {p p' : Result.Pipeline} {d : Delivery}
    (h : Result.Pipeline.step op sig chainID wallets p d = some p') (hd : ∀ teeID, d ≠ .setIdentity teeID) :
    p'.service.teeID = p.service.teeID := by
  cases d with
  | setIdentity teeID => exact absurd rfl (hd teeID)
  | process | passOn =>
    obtain ⟨service, hs, rfl⟩ := Option.map_eq_some_iff.mp h
    exact teeID_of_step hs (by simp)
  | expire id => cases h; rfl
  | store | receive =>
    simp only [Result.Pipeline.step] at h
    split at h
    · cases h
    split at h
    · cases h
    next hs => split at h <;> cases h <;> exact teeID_of_step hs (by simp)

theorem requests_of_deliver {p p' : Result.Pipeline} {d : Delivery}
    (h : Result.Pipeline.step op sig chainID wallets p d = some p') : p.service.requests ⊆ p'.service.requests := by
  rcases (Result.Pipeline.step_service h).1 with heq | ⟨f, hf⟩
  · exact heq ▸ List.Subset.refl _
  · exact requests_of_step hf

theorem requests_of_custody {t t' : Custody.State σ} {e : Custody.Event}
    (h : Custody.step op sig chainID wallets bs t e = some t') :
    t.results.service.requests ⊆ t'.results.service.requests := by
  rcases (Custody.step_inv h).results with heq | ⟨d, hd⟩
  · exact heq ▸ List.Subset.refl _
  · exact requests_of_deliver hd

theorem teeID_of_custody {t t' : Custody.State σ} {e : Custody.Event} {stage : Stage} (hadmits : admits stage e = true)
    (h : Custody.step op sig chainID wallets bs t e = some t') :
    t'.results.service.teeID = t.results.service.teeID := by
  cases Custody.step_inv h with
  | @delivered d _ hd =>
    refine teeID_of_deliver hd ?_
    rintro teeID rfl
    cases hadmits
  | received _ hd => exact teeID_of_deliver hd (by simp)
  | answered | moved => rfl

theorem teeID_of_setIdentity {t t' : Custody.State σ} {teeID : Address}
    (h : Custody.step op sig chainID wallets bs t (.deliver (.setIdentity teeID)) = some t') :
    t'.results.service.teeID = t.results.service.teeID ∨ t'.results.service.teeID = teeID := by
  obtain ⟨results, hresults, rfl⟩ := Option.map_eq_some_iff.mp h
  obtain ⟨service, hs, rfl⟩ := Option.map_eq_some_iff.mp hresults
  cases Result.step_inv hs with
  | identified => exact .inr rfl
  | moved => exact .inl rfl

theorem reach_rest (h : Lts.Reach (system op sig chainID wallets bs pkg cfg) ok s) :
    Lts.Reach (Custody.system op sig chainID wallets bs) Lts.Free s.rest := by
  refine h.simulation State.rest ?_ ?_
  · rintro s ⟨now, node, st, hblank, rfl⟩
    exact ⟨node, st, hblank, rfl⟩
  · intro s e s' _ _ _ hs
    cases step_inv hs with
    | moved _ hrest => exact .inr ⟨_, trivial, hrest⟩
    | @identified _ teeID _ _ _ _ hrest => exact .inr ⟨.deliver (.setIdentity teeID), trivial, hrest⟩
    | refreshed | panicked | compared => exact .inl rfl

theorem reach_info (h : Lts.Reach (system op sig chainID wallets bs pkg cfg) ok s) :
    Lts.Reach (Info.system pkg (some cfg.toAttestationConfig)) Lts.Free s.info := by
  refine h.simulation State.info ?_ ?_
  · rintro s ⟨now, node, st, -, rfl⟩
    exact ⟨now, rfl⟩
  · intro s e s' _ _ _ hs
    cases step_inv hs with
    | refreshed _ hinfo => exact .inr ⟨_, trivial, hinfo⟩
    | moved | panicked | compared | identified => exact .inl rfl

/-- The node has posted a response with this info, as the settings ask for it. -/
def Rooted (pkg : InfoPkg) (tok : TokenPkg) (a : Settings) (chainID : UInt64) (s : State σ) (result : TeeInfoResponse) :
    Prop :=
  ∃ now, ∃ response ∈ s.rest.results.service.requests, Attested pkg tok a chainID s.info.sent now response result

theorem Rooted.more {result : TeeInfoResponse} (h : Rooted pkg tok a chainID s result)
    (hreq : s.rest.results.service.requests ⊆ s'.rest.results.service.requests) (hsent : s.info.sent ⊆ s'.info.sent) :
    Rooted pkg tok a chainID s' result := by
  obtain ⟨now, response, hmem, hatt⟩ := h
  exact ⟨now, response, hreq hmem, hatt.more hsent⟩

/-- `Latest` is attested from the first refresh that succeeds, and the identity
is of an attested response. -/
structure Identity (pkg : InfoPkg) (tok : TokenPkg) (a : Settings) (chainID : UInt64) (s : State σ) : Prop where
  returned : ∀ c ∈ s.info.calls, ∀ challenge, c.phase = .returned (.ok challenge) →
    ∃ result, s.info.service.latest = some result ∧ Rooted pkg tok a chainID s result
  running : s.stage = .running → ∃ result, s.info.service.latest = some result ∧ Rooted pkg tok a chainID s result
  teeID : s.rest.results.service.teeID = 0 ∨
    ∃ result, Rooted pkg tok a chainID s result ∧ parseTeeID pkg result = .ok s.rest.results.service.teeID

/-- What is read of a state and what grows carries over. -/
theorem Identity.more (h : Identity pkg tok a chainID s)
    (hreq : s.rest.results.service.requests ⊆ s'.rest.results.service.requests) (hsent : s.info.sent ⊆ s'.info.sent)
    (hlatest : s'.info.service.latest = s.info.service.latest)
    (hcalls : ∀ c ∈ s'.info.calls, ∀ challenge, c.phase = .returned (.ok challenge) → c ∈ s.info.calls)
    (hstage : s'.stage = .running → s.stage = .running)
    (hid : s'.rest.results.service.teeID = s.rest.results.service.teeID) : Identity pkg tok a chainID s' where
  returned c hc challenge hphase := by
    obtain ⟨result, hres, hrooted⟩ := h.returned c (hcalls c hc challenge hphase) challenge hphase
    exact ⟨result, hlatest.trans hres, hrooted.more hreq hsent⟩
  running hrun := by
    obtain ⟨result, hres, hrooted⟩ := h.running (hstage hrun)
    exact ⟨result, hlatest.trans hres, hrooted.more hreq hsent⟩
  teeID := by
    rw [hid]
    exact h.teeID.imp id fun ⟨result, hrooted, hparse⟩ => ⟨result, hrooted.more hreq hsent, hparse⟩

/-- What a wait returns is stored, so the node has posted it. -/
theorem stored_of_respond {e : Event} {n : Nat} {response : ActionResponse} {token : Except PkgErr Unit} {now : Time}
    {cancelled : Bool} (h : infoEvent s e = some (.respond n (.ok response) token now cancelled)) :
    ∃ id, s.rest.results.stored.get? id = some response := by
  cases e with
  | respond m token' now' cancelled' =>
    simp only [infoEvent] at h
    split at h
    next action _ =>
      obtain ⟨found, hfound, heq⟩ := Option.map_eq_some_iff.mp h
      cases heq
      exact ⟨_, hfound⟩
    next => cases h
  | retryUpdate =>
    simp only [infoEvent] at h
    split at h <;> cases h
  | _ => cases h

theorem Identity.refresh (hb : buildAttestationConfig tok a chainID = .ok cfg) (hon : a.enable = true)
    (hreach : Lts.Reach (system op sig chainID wallets bs pkg cfg) ok s) (h : Identity pkg tok a chainID s) {e : Event}
    {f : Info.Event} (hf : infoEvent s e = some f) (hjudged : Info.Judged pkg tok cfg s.info f) {info : Info.State}
    (hinfo : Info.step pkg (some cfg.toAttestationConfig) s.info f = some info) :
    Identity pkg tok a chainID { s with info } := by
  obtain ⟨hsent, ⟨hlatest, -, hcalls⟩ | ⟨n, response, token, cancelled, result, verifiedAt, rfl, hlatest, -, hatt⟩⟩ :=
    Info.step_attested hb hon (Info.sentOK_of_reach (reach_info hreach)) hjudged hinfo
  · exact h.more (List.Subset.refl _) hsent hlatest hcalls id rfl
  · obtain ⟨pair, hid⟩ := stored_of_respond hf
    have hmem := (Server.stored_signed (Custody.reach_results (reach_rest hreach)) hid).2.1
    have hrooted : Rooted pkg tok a chainID { s with info } result := ⟨verifiedAt, response, hmem, hatt⟩
    exact { returned := fun _ _ _ _ => ⟨result, hlatest, hrooted⟩
            running := fun _ => ⟨result, hlatest, hrooted⟩
            teeID := h.teeID.imp id fun ⟨r, hr, hparse⟩ => ⟨r, hr.more (List.Subset.refl _) hsent, hparse⟩ }

theorem identity (hb : buildAttestationConfig tok a chainID = .ok cfg) (hon : a.enable = true)
    (h : Lts.Reach (system op sig chainID wallets bs pkg cfg) (Judged pkg cfg tok) s) :
    Identity pkg tok a chainID s := by
  refine h.invariant (Identity pkg tok a chainID) ?_ ?_
  · rintro s ⟨now, node, st, -, rfl⟩
    exact ⟨fun c hc => (nomatch hc), fun hrun => (by cases hrun), .inl rfl⟩
  · intro s e s' hreach ih hjudged hs
    cases step_inv hs with
    | moved hadmits hrest =>
      exact ih.more (requests_of_custody hrest) (List.Subset.refl _) rfl (fun _ hc _ _ => hc) id
        (teeID_of_custody hadmits hrest)
    | refreshed hf hinfo => exact ih.refresh hb hon hreach hf (hjudged _ hf) hinfo
    | panicked =>
      exact ih.more (List.Subset.refl _) (List.Subset.refl _) rfl (fun _ hc _ _ => hc) (fun hrun => by cases hrun) rfl
    | compared hstage hcall =>
      obtain ⟨c, hc, hphase⟩ := Option.map_eq_some_iff.mp hcall
      exact ⟨ih.returned, fun _ => ih.returned c (List.mem_of_getElem? hc) _ hphase, ih.teeID⟩
    | @identified initialInfo teeID rest hstage hlatest hparse hrest =>
      obtain ⟨result, hresult, hrooted⟩ := ih.running hstage
      cases hlatest.symm.trans hresult
      have hmore : ∀ {r}, Rooted pkg tok a chainID s r →
          Rooted pkg tok a chainID { s with stage := .identified, rest } r :=
        fun hr => hr.more (requests_of_custody hrest) (List.Subset.refl _)
      refine ⟨fun c hc challenge hphase => ?_, fun hrun => (by cases hrun), ?_⟩
      · obtain ⟨r, hr, hroot⟩ := ih.returned c hc challenge hphase
        exact ⟨r, hr, hmore hroot⟩
      · rcases teeID_of_setIdentity hrest with heq | heq
        · exact heq ▸ ih.teeID.imp id fun ⟨r, hr, hp⟩ => ⟨r, hmore hr, hp⟩
        · exact .inr ⟨initialInfo, hmore hrooted, heq ▸ hparse⟩

variable [DecidableEq ε]

end Identity

/-- As `Info.plainInfo`, with the TEE at 9. -/
def plainInfo : InfoPkg := { Info.plainInfo with pubkeyToAddress := fun _ => 9 }

/-- The action of the info request. -/
def infoAction : Action := ⟨⟨1, .direct, .submit, []⟩, [], [], [], []⟩

/-- The start of `Run` with a Redis. -/
def blank : State (Redis Unit) :=
  ⟨.fetching, ⟨⟨some Info.emptyInfo, ⟨0, 0, none⟩, none⟩, [], []⟩, Custody.start [] .empty⟩

/-- The wait of the info request ends with the stored answer. -/
def accepted : Event := .respond 0 (.ok ()) ⟨130, 0, none⟩ false

/-- The identity is set, and a key is made. -/
def identified : List Event :=
  [.checkChallenge, .identify, .custody (.deliver (.process (Server.keyGenerated 1))), .custody (.deliver (.passOn 0)),
    .custody (.deliver (.store 0 true true))]

end TeeProxy.Boot
