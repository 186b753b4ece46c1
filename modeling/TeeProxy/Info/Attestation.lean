/-
The attestation check in full: `Verify` and its parts
(`pkg/attestation/verifier.go`), the labels of its outcomes (`reason.go` and
`attestationOutcome` of `internal/service/info/info.go`), the settings it comes
from (`Attestation` of `pkg/config/config.go`) and `buildAttestationConfig`
(`internal/proxy/proxy.go`).

In `TeeProxy.Info.Refresh` the validation of a token has any outcome. Here the
outcome is that of `ParseAndValidatePKIToken`, with a nonce that is the hash of
the very `TeeInfo` the response holds, and of `verifyClaims`; what stays
arbitrary is the package that checks the token's signature chain. So what an
operator sets is what holds of the info that is published, whatever attempts
the refresh makes and the node answers (`published_attested`).
-/
import TeeProxy.Info.Refresh
import TeeProxy.Lib.Hex
import TeeProxy.Policy.Signatures

namespace TeeProxy.Info

open GoTime (Time Duration)
open Policy (bytesToHash)

/-! ## Settings -/

/-- `config.Attestation`. A Go string is its bytes. -/
structure Settings where
  enable : Bool
  audience : Bytes
  expectedCodeHashes : List Bytes
  expectedPlatforms : List Bytes
  expectedDebugStatuses : List Bytes
  maxTokenAge : Duration
  requireSecBoot : Bool
  allowMagicPass : Bool

/-- The errors of `parseCodeHash`. -/
inductive CodeHashErr
  | decoding (e : Hex.DecodeErr)
  | length (got : Nat)
  deriving DecidableEq, Repr

/-- `sha256:` and `0x`, `0X`. -/
def cutCodeHashPrefix (s : Bytes) : Bytes :=
  if [115, 104, 97, 50, 53, 54, 58].isPrefixOf s then s.drop 7
  else if [48, 120].isPrefixOf s || [48, 88].isPrefixOf s then s.drop 2
  else s

/-- `parseCodeHash`: 32 bytes in hex, with or without the prefix. -/
def parseCodeHash (s : Bytes) : Except CodeHashErr Hash :=
  match Hex.decode (cutCodeHashPrefix s) with
  | .error e => .error (.decoding e)
  | .ok b => if b.length ≠ 32 then .error (.length b.length) else .ok (bytesToHash b)

/-- The errors of the settings. -/
inductive SettingsErr
  | maxTokenAgeNegative
  | codeHashInvalid (s : Bytes) (e : CodeHashErr)
  deriving DecidableEq, Repr

/-- `Attestation.validate`. -/
def Settings.validate (a : Settings) : Except SettingsErr Unit := do
  if a.maxTokenAge < 0 then throw .maxTokenAgeNegative
  let _ ← a.expectedCodeHashes.mapM fun h => (parseCodeHash h).mapError (.codeHashInvalid h)
  return ()

def Settings.parsedCodeHashes (a : Settings) : Except (Bytes × CodeHashErr) (List Hash) :=
  a.expectedCodeHashes.mapM fun h => (parseCodeHash h).mapError (Prod.mk h)

theorem Settings.parsedCodeHashes_of_validate {a : Settings} (h : a.validate = .ok ()) :
    ∃ hashes, a.parsedCodeHashes = .ok hashes := by
  unfold Settings.validate at h
  simp only [Except.ite_throw_ok_iff, Except.bind_ok_iff, Except.mapM_ok_iff, Except.mapError_ok_iff] at h
  obtain ⟨-, hashes, hall, -⟩ := h
  refine ⟨hashes, ?_⟩
  unfold Settings.parsedCodeHashes
  simp only [Except.mapM_ok_iff, Except.mapError_ok_iff]
  exact hall

/-! ## Tokens -/

/-- `attestation.Config`. -/
structure VerifyConfig extends AttestationConfig where
  rootCert : Bytes
  leafCRL : Option Bytes
  intermediateCRL : Option Bytes
  audience : Bytes
  allowedImageIDs : List Hash
  expectedCodeHash : List Hash
  expectedPlatform : List Hash
  expectedDebugStatus : List Bytes
  maxTokenAge : Duration
  requireSecBoot : Bool

/-- `googlecloud.GoogleTeeClaims`, as far as it is checked. -/
structure Claims where
  issuedAt : Option Time
  secBoot : Bool
  debugStatus : Bytes
  codeHash : Except PkgErr Hash
  platform : Except PkgErr Hash

/-- `googlecloud.Policy`. -/
structure TokenPolicy where
  audience : Bytes
  allowedImageIDs : GoMap Hash Unit
  issuer : Bytes
  eatNonce : String

/-- Why a token is not accepted. The last of `ErrTokenTooOld` has the time until
the token is issued. -/
inductive TokenErr
  | hashing (e : PkgErr)
  | jwtInvalid (e : PkgErr)
  | iatMissing
  | tooOld (age : Duration)
  | inFuture (ahead : Duration)
  | secBootDisabled
  | debugNotAllowed (got : Bytes)
  | readingCodeHash (e : PkgErr)
  | codeHashNotAllowed (got : Hash)
  | readingPlatform (e : PkgErr)
  | platformNotAllowed (got : Hash)
  deriving DecidableEq, Repr

/-- What the check of a token calls: the embedded root certificate, the hash of
a platform's name, the hash of the `TeeInfo` in a response's data (it covers
more than `TeeInfoResponse` has), the package that validates tokens, with its
issuer and its clock, and the texts of the errors. -/
structure TokenPkg where
  googleCSRoot : Except PkgErr Bytes
  stringToCommonHash : Bytes → Except PkgErr Hash
  teeInfoHash : Bytes → Except PkgErr Bytes
  confidentialSpaceIssuer : Bytes
  parseAndValidatePKIToken : Time → Bytes → Bytes → Option Bytes → Option Bytes → TokenPolicy → Except PkgErr Claims
  text : TokenErr → PkgErr

/-- How far ahead of the clock a token may be issued. -/
def allowedClockSkew : Duration := 30 * GoTime.second

section Verify

variable (tok : TokenPkg) (cfg : VerifyConfig)

def imageIDSet (ids : List Hash) : GoMap Hash Unit := ids.foldl (fun out id => out.set id ()) ∅

/-- The age of a token, if the config limits it. A token from the future is
refused beyond the allowed skew. -/
def checkAge (now : Time) (claims : Claims) : Except TokenErr Unit :=
  if 0 < cfg.maxTokenAge then
    match claims.issuedAt with
    | none => .error .iatMissing
    | some iat =>
      let age := now.sub iat
      if cfg.maxTokenAge < age then .error (.tooOld age)
      else if age < -allowedClockSkew then .error (.inFuture (-age))
      else .ok ()
  else .ok ()

/-- A hash that the claims give must be on the list, if there is one. -/
def checkListed (allowed : List Hash) (claim : Except PkgErr Hash) (reading : PkgErr → TokenErr)
    (notAllowed : Hash → TokenErr) : Except TokenErr Unit :=
  if allowed = [] then .ok ()
  else do
    let got ← claim.mapError reading
    if got ∉ allowed then throw (notAllowed got)
    return ()

/-- `verifyClaims`: each configured check, in the order of the code. -/
def verifyClaims (now : Time) (claims : Claims) : Except TokenErr Unit := do
  checkAge cfg now claims
  if cfg.requireSecBoot && !claims.secBoot then throw .secBootDisabled
  if cfg.expectedDebugStatus ≠ [] ∧ claims.debugStatus ∉ cfg.expectedDebugStatus then
    throw (.debugNotAllowed claims.debugStatus)
  checkListed cfg.expectedCodeHash claims.codeHash .readingCodeHash .codeHashNotAllowed
  checkListed cfg.expectedPlatform claims.platform .readingPlatform .platformNotAllowed

/-- The policy for a token that comes with a `TeeInfo` of this hash. -/
def tokenPolicy (teeInfoHash : Bytes) : TokenPolicy :=
  ⟨cfg.audience, imageIDSet cfg.allowedImageIDs, tok.confidentialSpaceIssuer,
    Hex.encode (2 * teeInfoHash.length) (Hex.value teeInfoHash)⟩

/-- `Verify` once the sentinel is ruled out: the token of a response with this
data. -/
def verifyToken (parsedAt now : Time) (data attestation : Bytes) : Except TokenErr Unit := do
  let teeInfoHash ← (tok.teeInfoHash data).mapError .hashing
  let claims ← (tok.parseAndValidatePKIToken parsedAt attestation cfg.rootCert cfg.leafCRL cfg.intermediateCRL
    (tokenPolicy tok cfg teeInfoHash)).mapError .jwtInvalid
  verifyClaims cfg now claims

end Verify

/-! ## `Verify` -/

inductive VerifyFailure
  | challengeMismatch
  | pubKeyMismatch
  | chainIDMismatch (proxy tee : UInt64)
  | magicPassDisabled
  | token (e : TokenErr)
  deriving DecidableEq, Repr

/-- The failure with the text of the token's. -/
def VerifyFailure.texted (text : TokenErr → PkgErr) : VerifyFailure → VerifyErr
  | .challengeMismatch => .challengeMismatch
  | .pubKeyMismatch => .pubKeyMismatch
  | .chainIDMismatch proxy tee => .chainIDMismatch proxy tee
  | .magicPassDisabled => .magicPassDisabled
  | .token e => .token (text e)

/-- `verifyBedrock`: what is checked of every response. -/
def verifyBedrock (tir : TeeInfoResponse) (sentChallenge : Hash) : Except VerifyFailure Unit :=
  if tir.challenge ≠ sentChallenge then .error .challengeMismatch
  else if tir.publicKey ≠ tir.machinePublicKey then .error .pubKeyMismatch
  else .ok ()

def verifyChainID (tir : TeeInfoResponse) (chainID : UInt64) : Except VerifyFailure Unit :=
  if tir.chainID ≠ chainID then .error (.chainIDMismatch chainID tir.chainID) else .ok ()

/-- `attestation.Verify`, of a response with this data. -/
def verifyAttestation (pkg : InfoPkg) (tok : TokenPkg) (cfg : VerifyConfig) (parsedAt now : Time) (data : Bytes)
    (tir : TeeInfoResponse) (sentChallenge : Hash) : Except VerifyFailure Unit :=
  if !cfg.enabled then .ok ()
  else do
    verifyBedrock tir sentChallenge
    verifyChainID tir cfg.chainID
    if tir.attestation = pkg.magicPass then
      if !cfg.allowMagicPass then .error .magicPassDisabled else .ok ()
    else (verifyToken tok cfg parsedAt now data tir.attestation).mapError .token

/-- **The refresh runs this check**, where the token's outcome is that of
`verifyToken`. -/
theorem verify_eq (pkg : InfoPkg) (tok : TokenPkg) (cfg : VerifyConfig) (parsedAt now : Time) (data : Bytes)
    (tir : TeeInfoResponse) (sentChallenge : Hash) :
    verify pkg cfg.toAttestationConfig ((verifyToken tok cfg parsedAt now data tir.attestation).mapError tok.text) tir
      sentChallenge =
      (verifyAttestation pkg tok cfg parsedAt now data tir sentChallenge).mapError (VerifyFailure.texted tok.text) := by
  unfold verify verifyAttestation verifyBedrock verifyChainID
  split
  · rfl
  split
  · rfl
  split
  · rfl
  split
  · rfl
  simp only [bind, Except.bind]
  split
  · split <;> rfl
  · cases verifyToken tok cfg parsedAt now data tir.attestation <;> rfl

/-! ## The labels of an outcome -/

/-- What `Reason` and `ReasonMagicPass` name. -/
inductive Reason
  | ok | magicPass | challengeMismatch | pubKeyMismatch | chainIDMismatch | magicPassDisabled | tokenTooOld
  | secBootDisabled | debugNotAllowed | codeHashNotAllowed | platformNotAllowed | jwtInvalid | other
  deriving DecidableEq, Repr

/-- The label of a reason in the metrics. -/
def Reason.label : Reason → String
  | .ok => "ok"
  | .magicPass => "magic_pass"
  | .challengeMismatch => "challenge_mismatch"
  | .pubKeyMismatch => "pubkey_mismatch"
  | .chainIDMismatch => "chain_id_mismatch"
  | .magicPassDisabled => "magic_pass_disabled"
  | .tokenTooOld => "token_too_old"
  | .secBootDisabled => "sec_boot_disabled"
  | .debugNotAllowed => "debug_not_allowed"
  | .codeHashNotAllowed => "code_hash_not_allowed"
  | .platformNotAllowed => "platform_not_allowed"
  | .jwtInvalid => "jwt_invalid"
  | .other => "other"

/-- `ErrorReasons`. -/
def errorReasons : List Reason :=
  [.challengeMismatch, .pubKeyMismatch, .chainIDMismatch, .magicPassDisabled, .tokenTooOld, .secBootDisabled,
    .debugNotAllowed, .codeHashNotAllowed, .platformNotAllowed, .jwtInvalid, .other]

/-- `Reason` of a failure. An error of reading a claim or of hashing is none of
those it knows. -/
def VerifyFailure.reason : VerifyFailure → Reason
  | .challengeMismatch => .challengeMismatch
  | .pubKeyMismatch => .pubKeyMismatch
  | .chainIDMismatch _ _ => .chainIDMismatch
  | .magicPassDisabled => .magicPassDisabled
  | .token (.iatMissing) | .token (.tooOld _) | .token (.inFuture _) => .tokenTooOld
  | .token .secBootDisabled => .secBootDisabled
  | .token (.debugNotAllowed _) => .debugNotAllowed
  | .token (.codeHashNotAllowed _) => .codeHashNotAllowed
  | .token (.platformNotAllowed _) => .platformNotAllowed
  | .token (.jwtInvalid _) => .jwtInvalid
  | .token (.hashing _) | .token (.readingCodeHash _) | .token (.readingPlatform _) => .other

/-- Whether it is counted as a success, and under which reason. -/
def attestationOutcome (pkg : InfoPkg) (tir : TeeInfoResponse) : Except VerifyFailure Unit → Bool × Reason
  | .error e => (false, e.reason)
  | .ok () => if tir.attestation = pkg.magicPass then (true, .magicPass) else (true, .ok)

theorem reason_mem_errorReasons (e : VerifyFailure) : e.reason ∈ errorReasons := by
  cases e with
  | token e => cases e <;> simp [VerifyFailure.reason, errorReasons]
  | _ => simp [VerifyFailure.reason, errorReasons]

/-! ## The checks that run -/

/-- `ActiveChecks`, which are logged and recorded when the proxy starts. -/
structure ActiveChecks where
  audience : Bool
  codeHash : Bool
  platform : Bool
  debugStatus : Bool
  maxTokenAge : Bool
  secBoot : Bool
  magicPass : Bool
  deriving DecidableEq, Repr

/-- Which checks the config asks for. -/
def VerifyConfig.active (cfg : VerifyConfig) : ActiveChecks where
  audience := cfg.audience ≠ []
  codeHash := cfg.expectedCodeHash ≠ []
  platform := cfg.expectedPlatform ≠ []
  debugStatus := cfg.expectedDebugStatus ≠ []
  maxTokenAge := 0 < cfg.maxTokenAge
  secBoot := cfg.requireSecBoot
  magicPass := cfg.allowMagicPass

/-- The claims pass every check that is active. -/
structure ClaimsPass (cfg : VerifyConfig) (now : Time) (claims : Claims) : Prop where
  maxTokenAge : cfg.active.maxTokenAge = true →
    ∃ iat, claims.issuedAt = some iat ∧ now.sub iat ≤ cfg.maxTokenAge ∧ -allowedClockSkew ≤ now.sub iat
  secBoot : cfg.active.secBoot = true → claims.secBoot = true
  debugStatus : cfg.active.debugStatus = true → claims.debugStatus ∈ cfg.expectedDebugStatus
  codeHash : cfg.active.codeHash = true → ∃ h ∈ cfg.expectedCodeHash, claims.codeHash = .ok h
  platform : cfg.active.platform = true → ∃ h ∈ cfg.expectedPlatform, claims.platform = .ok h

section Checks

variable {pkg : InfoPkg} {tok : TokenPkg} {cfg : VerifyConfig} {parsedAt now : Time} {claims : Claims} {data : Bytes}
  {tir : TeeInfoResponse} {challenge : Hash}

theorem checkAge_ok_iff : checkAge cfg now claims = .ok () ↔ (0 < cfg.maxTokenAge →
    ∃ iat, claims.issuedAt = some iat ∧ now.sub iat ≤ cfg.maxTokenAge ∧ -allowedClockSkew ≤ now.sub iat) := by
  unfold checkAge
  split
  next hactive =>
    simp only [hactive, forall_const]
    split
    next hnone => simp [hnone]
    next iat hiat =>
      simp only [hiat, Option.some.injEq, exists_eq_left']
      split
      next hold => simp [hold]
      next hold =>
        split
        next hahead => simp [hahead]
        next hahead => simp [not_lt.mp hold, not_lt.mp hahead]
  next hactive => simp [hactive]

theorem checkListed_ok_iff {allowed : List Hash} {claim : Except PkgErr Hash} {reading : PkgErr → TokenErr}
    {notAllowed : Hash → TokenErr} :
    checkListed allowed claim reading notAllowed = .ok () ↔ (allowed ≠ [] → ∃ h ∈ allowed, claim = .ok h) := by
  unfold checkListed
  split
  next hnone => simp [hnone]
  next hsome =>
    simp only [Except.bind_ok_iff, Except.mapError_ok_iff, Except.ite_throw_ok_iff, not_not, hsome, ne_eq,
      not_false_eq_true, forall_const, Except.pure_ok_iff, and_true]
    constructor
    · rintro ⟨h, hclaim, hmem⟩; exact ⟨h, hmem, hclaim⟩
    · rintro ⟨h, hmem, hclaim⟩; exact ⟨h, hclaim, hmem⟩

/-- **The claims pass exactly if they pass the active checks.** -/
theorem verifyClaims_ok_iff : verifyClaims cfg now claims = .ok () ↔ ClaimsPass cfg now claims := by
  unfold verifyClaims
  simp only [Except.bind_ok_iff, Except.ite_throw_ok_iff]
  constructor
  · rintro ⟨⟨⟩, hage, hboot, hdebug, ⟨⟩, hcode, hplatform⟩
    refine ⟨fun h => checkAge_ok_iff.mp hage (of_decide_eq_true h), fun h => ?_, fun h => ?_,
      fun h => checkListed_ok_iff.mp hcode (of_decide_eq_true h),
      fun h => checkListed_ok_iff.mp hplatform (of_decide_eq_true h)⟩
    · have hreq : cfg.requireSecBoot = true := h
      simpa [hreq] using hboot
    · have hne : cfg.expectedDebugStatus ≠ [] := of_decide_eq_true h
      exact not_not.mp fun hmem => hdebug ⟨hne, hmem⟩
  · rintro ⟨hage, hboot, hdebug, hcode, hplatform⟩
    refine ⟨(), checkAge_ok_iff.mpr fun h => hage (decide_eq_true h), ?_,
      fun h => h.2 (hdebug (decide_eq_true h.1)), (), checkListed_ok_iff.mpr fun h => hcode (decide_eq_true h),
      checkListed_ok_iff.mpr fun h => hplatform (decide_eq_true h)⟩
    intro h
    obtain ⟨hreq, hoff⟩ := (Bool.and_eq_true _ _).mp h
    simp [hboot hreq] at hoff

/-- The token is valid for the nonce of this data, and its claims pass. -/
def TokenPasses (tok : TokenPkg) (cfg : VerifyConfig) (parsedAt now : Time) (data attestation : Bytes) : Prop :=
  ∃ teeInfoHash claims, tok.teeInfoHash data = .ok teeInfoHash ∧
    tok.parseAndValidatePKIToken parsedAt attestation cfg.rootCert cfg.leafCRL cfg.intermediateCRL
      (tokenPolicy tok cfg teeInfoHash) = .ok claims ∧ ClaimsPass cfg now claims

theorem verifyToken_ok_iff {attestation : Bytes} :
    verifyToken tok cfg parsedAt now data attestation = .ok () ↔ TokenPasses tok cfg parsedAt now data attestation := by
  unfold verifyToken TokenPasses
  simp only [Except.bind_ok_iff, Except.mapError_ok_iff, verifyClaims_ok_iff]
  constructor
  · rintro ⟨hash, hhash, claims, hclaims, hpass⟩; exact ⟨hash, claims, hhash, hclaims, hpass⟩
  · rintro ⟨hash, claims, hhash, hclaims, hpass⟩; exact ⟨hash, hhash, claims, hclaims, hpass⟩

/-- A response that is verified when the check is on. -/
structure Passes (pkg : InfoPkg) (tok : TokenPkg) (cfg : VerifyConfig) (parsedAt now : Time) (data : Bytes)
    (tir : TeeInfoResponse) (challenge : Hash) : Prop where
  challenge : tir.challenge = challenge
  publicKey : tir.publicKey = tir.machinePublicKey
  chainID : tir.chainID = cfg.chainID
  token : tir.attestation = pkg.magicPass ∧ cfg.active.magicPass = true ∨
    tir.attestation ≠ pkg.magicPass ∧ TokenPasses tok cfg parsedAt now data tir.attestation

/-- **`Verify` returns no error exactly then.** -/
theorem verifyAttestation_ok_iff (hon : cfg.enabled = true) :
    verifyAttestation pkg tok cfg parsedAt now data tir challenge = .ok () ↔
      Passes pkg tok cfg parsedAt now data tir challenge := by
  unfold verifyAttestation verifyBedrock verifyChainID
  simp only [hon, Bool.not_true, Bool.false_eq_true, if_false]
  constructor
  · intro h
    split at h
    · cases h
    next hchallenge =>
    split at h
    · cases h
    next hkey =>
    split at h
    · cases h
    next hchain =>
    refine ⟨not_not.mp hchallenge, not_not.mp hkey, not_not.mp hchain, ?_⟩
    simp only [bind, Except.bind] at h
    split at h
    next hmagic =>
      split at h
      · cases h
      next hallow =>
        have hallow : cfg.allowMagicPass = true := by simpa using hallow
        exact .inl ⟨hmagic, hallow⟩
    next hmagic => exact .inr ⟨hmagic, verifyToken_ok_iff.mp (Except.mapError_ok_iff.mp h)⟩
  · rintro ⟨hchallenge, hkey, hchain, htoken⟩
    simp only [hchallenge, hkey, hchain, ne_eq, not_true_eq_false, if_false, bind, Except.bind]
    rcases htoken with ⟨hmagic, hallow⟩ | ⟨hmagic, htoken⟩
    · have hallow : cfg.allowMagicPass = true := hallow
      simp [hmagic, hallow]
    · rw [if_neg hmagic, verifyToken_ok_iff.mpr htoken]
      rfl

/-- A pass is counted as `ok` if it has a token, and as `magic_pass` if it has
the sentinel; a failure is counted under one of `ErrorReasons`. -/
theorem attestationOutcome_iff (hon : cfg.enabled = true) :
    (attestationOutcome pkg tir (verifyAttestation pkg tok cfg parsedAt now data tir challenge) = (true, .ok) ↔
      Passes pkg tok cfg parsedAt now data tir challenge ∧ tir.attestation ≠ pkg.magicPass) ∧
    (attestationOutcome pkg tir (verifyAttestation pkg tok cfg parsedAt now data tir challenge) = (true, .magicPass) ↔
      Passes pkg tok cfg parsedAt now data tir challenge ∧ tir.attestation = pkg.magicPass) ∧
    ((attestationOutcome pkg tir (verifyAttestation pkg tok cfg parsedAt now data tir challenge)).1 = false →
      (attestationOutcome pkg tir (verifyAttestation pkg tok cfg parsedAt now data tir challenge)).2 ∈
        errorReasons) := by
  rw [← verifyAttestation_ok_iff hon]
  cases hv : verifyAttestation pkg tok cfg parsedAt now data tir challenge with
  | error e =>
    have hreason := reason_mem_errorReasons e
    simp [attestationOutcome, hreason]
  | ok u =>
    cases u
    by_cases hmagic : tir.attestation = pkg.magicPass <;> simp [attestationOutcome, hmagic]

end Checks

/-! ## From the settings to what is published -/

/-- The errors of `buildAttestationConfig`. -/
inductive BuildErr
  | loadingRoot (e : PkgErr)
  | parsingCodeHashes (s : Bytes) (e : CodeHashErr)
  | encodingPlatform (s : Bytes) (e : PkgErr)
  deriving DecidableEq, Repr

/-- `buildAttestationConfig`: without attestation the zero config. -/
def buildAttestationConfig (tok : TokenPkg) (a : Settings) (chainID : UInt64) : Except BuildErr VerifyConfig :=
  if !a.enable then
    .ok ⟨⟨false, 0, false⟩, [], none, none, [], [], [], [], [], 0, false⟩
  else do
    let root ← tok.googleCSRoot.mapError .loadingRoot
    let codeHashes ← a.parsedCodeHashes.mapError fun (s, e) => .parsingCodeHashes s e
    let platforms ← a.expectedPlatforms.mapM fun p => (tok.stringToCommonHash p).mapError (.encodingPlatform p)
    return {
      enabled := true
      chainID
      allowMagicPass := a.allowMagicPass
      rootCert := root
      leafCRL := none
      intermediateCRL := none
      audience := a.audience
      allowedImageIDs := []
      expectedCodeHash := codeHashes
      expectedPlatform := platforms
      expectedDebugStatus := a.expectedDebugStatuses
      maxTokenAge := a.maxTokenAge
      requireSecBoot := a.requireSecBoot }

/-- What an operator's settings ask of the claims of a token. -/
structure Settings.Allows (a : Settings) (tok : TokenPkg) (now : Time) (claims : Claims) : Prop where
  maxTokenAge : 0 < a.maxTokenAge →
    ∃ iat, claims.issuedAt = some iat ∧ now.sub iat ≤ a.maxTokenAge ∧ -allowedClockSkew ≤ now.sub iat
  secBoot : a.requireSecBoot = true → claims.secBoot = true
  debugStatus : a.expectedDebugStatuses ≠ [] → claims.debugStatus ∈ a.expectedDebugStatuses
  codeHash : a.expectedCodeHashes ≠ [] →
    ∃ s ∈ a.expectedCodeHashes, ∃ h, parseCodeHash s = .ok h ∧ claims.codeHash = .ok h
  platform : a.expectedPlatforms ≠ [] →
    ∃ p ∈ a.expectedPlatforms, ∃ h, tok.stringToCommonHash p = .ok h ∧ claims.platform = .ok h

/-- A token that the settings accept at a time, for a response with this data:
it is valid under the root certificate, for the audience and with the hash of
the data's `TeeInfo` as its nonce, and its claims are allowed. -/
def Settings.Accepts (a : Settings) (tok : TokenPkg) (now : Time) (data attestation : Bytes) : Prop :=
  ∃ root teeInfoHash parsedAt claims, tok.googleCSRoot = .ok root ∧ tok.teeInfoHash data = .ok teeInfoHash ∧
    tok.parseAndValidatePKIToken parsedAt attestation root none none ⟨a.audience, ∅, tok.confidentialSpaceIssuer,
      Hex.encode (2 * teeInfoHash.length) (Hex.value teeInfoHash)⟩ = .ok claims ∧
    a.Allows tok now claims

section Published

variable {pkg : InfoPkg} {tok : TokenPkg} {a : Settings} {chainID : UInt64} {cfg : VerifyConfig} {s : State}

/-- An empty list is traversed to an empty one, and only that. -/
theorem nil_of_mapM {α β ε : Type} {f : α → Except ε β} {as : List α} {bs : List β} (h : as.mapM f = .ok bs) :
    as = [] ↔ bs = [] := by
  have hlen := (Except.mapM_ok_iff.mp h).length_eq
  rw [← List.length_eq_zero_iff, ← List.length_eq_zero_iff, hlen]

/-- **The checks of the config are those of the settings.** -/
theorem accepts_of_passes (hb : buildAttestationConfig tok a chainID = .ok cfg) (hon : a.enable = true)
    {parsedAt now : Time} {data attestation : Bytes} (h : TokenPasses tok cfg parsedAt now data attestation) :
    a.Accepts tok now data attestation := by
  obtain ⟨hash, claims, hhash, hclaims, hpass⟩ := h
  unfold buildAttestationConfig at hb
  simp only [hon, Bool.not_true, Bool.false_eq_true, if_false, Except.bind_ok_iff, Except.mapError_ok_iff,
    Except.pure_ok_iff] at hb
  obtain ⟨root, hroot, codeHashes, hcodes, platforms, hplatforms, rfl⟩ := hb
  refine ⟨root, hash, parsedAt, claims, hroot, hhash, hclaims, fun hage => hpass.maxTokenAge (decide_eq_true hage),
    hpass.secBoot, fun hne => hpass.debugStatus (decide_eq_true hne), fun hne => ?_, fun hne => ?_⟩
  · obtain ⟨h, hmem, hclaim⟩ := hpass.codeHash (decide_eq_true fun hnil => hne ((nil_of_mapM hcodes).mpr hnil))
    obtain ⟨text, htext, hparse⟩ := (Except.mem_of_mapM hcodes).mp hmem
    exact ⟨text, htext, h, Except.mapError_ok_iff.mp hparse, hclaim⟩
  · obtain ⟨h, hmem, hclaim⟩ := hpass.platform (decide_eq_true fun hnil => hne ((nil_of_mapM hplatforms).mpr hnil))
    obtain ⟨text, htext, hparse⟩ := (Except.mem_of_mapM hplatforms).mp hmem
    exact ⟨text, htext, h, Except.mapError_ok_iff.mp hparse, hclaim⟩

theorem build_enabled (hb : buildAttestationConfig tok a chainID = .ok cfg) (hon : a.enable = true) :
    cfg.enabled = true ∧ cfg.chainID = chainID ∧ cfg.allowMagicPass = a.allowMagicPass := by
  unfold buildAttestationConfig at hb
  simp only [hon, Bool.not_true, Bool.false_eq_true, if_false, Except.bind_ok_iff, Except.mapError_ok_iff,
    Except.pure_ok_iff] at hb
  obtain ⟨root, -, codeHashes, -, platforms, -, rfl⟩ := hb
  exact ⟨rfl, rfl, rfl⟩

/-- The token of a response is judged by `verifyToken`, which reads the clock on
its own: when the token is parsed, and for its age. The reading for
`LastUpdated` comes after both. -/
def Judged (pkg : InfoPkg) (tok : TokenPkg) (cfg : VerifyConfig) : State → Event → Prop
  | _, .respond _ (.ok response) token now _ => ∃ parsedAt verifiedAt, now.before verifiedAt = false ∧
      ∀ tir, pkg.unmarshalInfo response.result.data = .ok tir →
        token = (verifyToken tok cfg parsedAt verifiedAt response.result.data tir.attestation).mapError tok.text
  | _, _ => True

/-- A response as the settings ask for it at a time, to a challenge that was
sent. -/
structure Attested (pkg : InfoPkg) (tok : TokenPkg) (a : Settings) (chainID : UInt64) (sent : List Sent) (now : Time)
    (response : ActionResponse) (result : TeeInfoResponse) : Prop where
  data : pkg.unmarshalInfo response.result.data = .ok result
  challenge : ∃ x ∈ sent, x.challenge = result.challenge
  chainID : result.chainID = chainID
  publicKey : result.publicKey = result.machinePublicKey
  signature : ∃ teeID signingHash, parseTeeID pkg result = .ok teeID ∧
    pkg.payloadHash result.chainID (pkg.resultHash response.result) = .ok signingHash ∧
    pkg.verifySignature signingHash response.signature teeID = .ok ()
  token : result.attestation = pkg.magicPass ∧ a.allowMagicPass = true ∨
    result.attestation ≠ pkg.magicPass ∧ a.Accepts tok now response.result.data result.attestation

theorem Attested.more {sent sent' : List Sent} {now : Time} {response : ActionResponse} {result : TeeInfoResponse}
    (h : Attested pkg tok a chainID sent now response result) (hsub : sent ⊆ sent') :
    Attested pkg tok a chainID sent' now response result := by
  obtain ⟨x, hx, heq⟩ := h.challenge
  exact { h with challenge := ⟨x, hsub hx, heq⟩ }

/-- An attempt that fails, and a delay that is over, leave no call returned
without an error. -/
theorem returned_of_set {n : Nat} {c' : Call} {calls : List Call}
    (hc' : ∀ challenge, c'.phase ≠ .returned (.ok challenge))
    {c : Call} (hc : c ∈ calls.set n c') {challenge : Hash} (hphase : c.phase = .returned (.ok challenge)) :
    c ∈ calls := by
  rcases List.mem_or_eq_of_mem_set hc with hmem | rfl
  · exact hmem
  · exact absurd hphase (hc' challenge)

theorem Call.next_error (c : Call) (cancelled : Bool) (err : RefreshErr) (challenge : Hash) :
    (c.next cancelled (.error err)).phase ≠ .returned (.ok challenge) := by
  simp only [Call.next]
  split <;> simp

theorem wake_calls {cfg : Option AttestationConfig} {n : Nat} {cancelled : Bool} {s' : State}
    (hs : step pkg cfg s (.wake n cancelled) = some s') :
    ∃ c', s'.calls = s.calls.set n c' ∧ ∀ challenge, c'.phase ≠ .returned (.ok challenge) := by
  simp only [step] at hs
  split at hs
  · cases hs
  split at hs
  next =>
    split at hs
    · cases hs; exact ⟨_, rfl, by simp⟩
    · cases hs; exact ⟨_, rfl, by simp⟩
  next => cases hs

/-- **A step publishes an attested response**, or leaves what is published; then
no call returns without an error. -/
theorem step_attested (hb : buildAttestationConfig tok a chainID = .ok cfg) (hon : a.enable = true) (hsent : SentOK s)
    {e : Event} (hjudged : Judged pkg tok cfg s e) {s' : State}
    (hs : step pkg (some cfg.toAttestationConfig) s e = some s') :
    s.sent ⊆ s'.sent ∧
      ((s'.service.latest = s.service.latest ∧ s'.service.lastUpdated = s.service.lastUpdated ∧
          ∀ c ∈ s'.calls, ∀ challenge, c.phase = .returned (.ok challenge) → c ∈ s.calls) ∨
        ∃ n response token cancelled result verifiedAt,
          e = .respond n (.ok response) token s'.service.lastUpdated cancelled ∧ s'.service.latest = some result ∧
          s'.service.lastUpdated.before verifiedAt = false ∧
          Attested pkg tok a chainID s'.sent verifiedAt response result) := by
  obtain ⟨henabled, hchain, hallow⟩ := build_enabled hb hon
  cases step_inv hs with
  | called =>
    refine ⟨List.Subset.refl _, .inl ⟨rfl, rfl, fun c hc challenge hphase => ?_⟩⟩
    rcases List.mem_append.mp hc with hmem | hmem
    · exact hmem
    · cases List.mem_singleton.mp hmem
      cases hphase
  | woke =>
    obtain ⟨c', hcalls, hc'⟩ := wake_calls hs
    exact ⟨List.Subset.refl _, .inl ⟨rfl, rfl, fun c hc challenge => returned_of_set hc' (hcalls ▸ hc)⟩⟩
  | sent =>
    refine ⟨List.subset_append_left _ _, .inl ⟨rfl, rfl, fun c hc challenge => returned_of_set ?_ hc⟩⟩
    simp
  | @failed _ _ c err cancelled now =>
    obtain ⟨hlatest, hupdated⟩ := Service.record_error s.service now err
    exact ⟨List.Subset.refl _, .inl ⟨hlatest, hupdated, fun _ hc _ => returned_of_set (c.next_error cancelled err) hc⟩⟩
  | @published n c challenge action waited token now cancelled result hn hphase hres =>
    obtain ⟨response, rfl, hverified⟩ := readResponse_ok hres
    obtain ⟨parsedAt, verifiedAt, hbefore, htoken⟩ := hjudged
    have hpass : Passes pkg tok cfg parsedAt verifiedAt response.result.data result challenge := by
      have hv := hverified.attestation
      rw [htoken result hverified.data, verify_eq, Except.mapError_ok_iff] at hv
      exact (verifyAttestation_ok_iff henabled).mp hv
    refine ⟨List.Subset.refl _, .inr ⟨n, response, token, cancelled, result, verifiedAt, rfl, rfl, hbefore,
      hverified.data, ⟨_, hsent.waiting n c hn challenge action hphase, hpass.challenge.symm⟩,
      hpass.chainID.trans hchain, hpass.publicKey, hverified.signature, ?_⟩⟩
    refine hpass.token.imp (fun htok => ⟨htok.1, hallow ▸ htok.2⟩) fun htok => ⟨htok.1, ?_⟩
    exact accepts_of_passes hb hon htok.2

end Published

end TeeProxy.Info
