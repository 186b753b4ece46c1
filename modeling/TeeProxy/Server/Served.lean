/-
Results on their way out: `GET /action/result/{actionID}` (`resultH` and
`submissionTagParam` of `internal/server/external.go`, `hashParam` of
`internal/server/handler.go`), which `Serve` of the result service answers from
what `ProcessAndStore` has stored.

A client gives an action ID as text and, if it likes, a submission tag. What it
is served is a response the node has posted for just that pair, signed by the
TEE the proxy was started with unless it is a TEE_INFO one
(`served_authentic`); and until it expires, a final answer stays the answer and
a transient one only makes way for a later one (`served_lasts`).
-/
import TeeProxy.Lib.Hex
import TeeProxy.Policy.Signatures
import TeeProxy.Result.Override

namespace TeeProxy.Server

open Policy (bytesToHash)
open Result (Pipeline Delivery SigningPkg Signed FetchErr fetchByID pairOf)

/-! ## Parameters -/

/-- The errors of a handler that serves a result. -/
inductive ServeErr
  | parsingForm (e : PkgErr)
  | invalidParam (param : String)
  | emptySubmissionTag
  | invalidSubmissionTag
  | serving (e : FetchErr)
  | signing (e : PkgErr)
  deriving DecidableEq, Repr

/-- `strings.ToLower`, byte by byte. No character outside ASCII becomes a digit
or an `x` by it. -/
def toLower (b : UInt8) : UInt8 := if 65 ≤ b ∧ b ≤ 90 then b + 32 else b

/-- `strings.CutPrefix` of `0x`. -/
def cutPrefix (s : Bytes) : Bytes := if [48, 120].isPrefixOf s then s.drop 2 else s

/-- `hashParam`: 32 bytes in hex, with or without the prefix. -/
def hashParam (param : String) (s : Bytes) : Except ServeErr Hash :=
  match Hex.decode (cutPrefix (s.map toLower)) with
  | .error _ => .error (.invalidParam param)
  | .ok b => if b.length ≠ 32 then .error (.invalidParam param) else .ok (bytesToHash b)

/-- The digits of a hash, in small letters. -/
def hashText (h : Hash) : Bytes := (Hex.digits 64 h.toNat).map Char.toUInt8

/-- The values of the query parameter, if there is one. -/
def submissionTagParam : Option (List SubmissionTag) → Except ServeErr SubmissionTag
  | none => .ok .threshold
  | some [st] => if st = .end ∨ st = .submit ∨ st = .threshold then .ok st else .error .invalidSubmissionTag
  | some _ => .error .emptySubmissionTag

/-- The digits of `strconv.ParseUint` in base 10. -/
def isDigit (b : UInt8) : Bool := 48 ≤ b && b ≤ 57

/-- The number a text of digits stands for. -/
def decimal (s : Bytes) : Nat := s.foldl (fun n b => 10 * n + (b.toNat - 48)) 0

/-- `uint64Param`: decimal digits only. -/
def uint64Param (param : String) (s : Bytes) : Except ServeErr UInt64 :=
  if s = [] ∨ ¬ s.all isDigit then .error (.invalidParam param)
  else if 2 ^ 64 ≤ decimal s then .error (.invalidParam param)
  else .ok (UInt64.ofNat (decimal s))

theorem lower_toLower (s : Bytes) : Hex.Lower (s.map toLower) := by
  intro p hp hcap
  obtain ⟨b, -, rfl⟩ := List.mem_map.mp hp
  have all : ∀ n < 256, ¬ (65 ≤ toLower (UInt8.ofNat n) ∧ toLower (UInt8.ofNat n) ≤ 70) := by decide +kernel
  have hb := all b.toNat b.toNat_lt
  rw [UInt8.ofNat_toNat] at hb
  exact hb hcap

theorem lower_cutPrefix {s : Bytes} (h : Hex.Lower s) : Hex.Lower (cutPrefix s) := by
  unfold cutPrefix
  split
  · exact fun p hp => h p (List.mem_of_mem_drop hp)
  · exact h

/-- **A text is taken for a hash** exactly if it is its 64 digits, in letters of
any case and with or without `0x`. -/
theorem hashParam_ok_iff {param : String} {s : Bytes} {h : Hash} :
    hashParam param s = .ok h ↔ cutPrefix (s.map toLower) = hashText h := by
  have hdecode : ∀ b, Hex.decode (cutPrefix (s.map toLower)) = .ok b ↔
      cutPrefix (s.map toLower) = (Hex.digits (2 * b.length) (Hex.value b)).map Char.toUInt8 :=
    fun b => Hex.decode_ok_iff (lower_cutPrefix (lower_toLower s))
  unfold hashParam hashText
  constructor
  · intro hok
    split at hok
    · cases hok
    next b hb =>
    split at hok
    · cases hok
    next hlen =>
    cases hok
    have hval : (bytesToHash b).toNat = Hex.value b := by
      have hlt := Hex.value_lt b
      rw [not_not.mp hlen] at hlt
      exact Nat.mod_eq_of_lt hlt
    rw [hval, (hdecode b).mp hb, not_not.mp hlen]
  · intro htext
    have hlt : h.toNat < 16 ^ (2 * 32) := h.isLt
    obtain ⟨b, hlen, hval⟩ := Hex.exists_value hlt
    have hb : Hex.decode (cutPrefix (s.map toLower)) = .ok b := by
      rw [hdecode, htext, hlen, hval]
    have hhash : bytesToHash b = h := by
      have hofNat : bytesToHash b = .ofNat 256 (Hex.value b) := rfl
      rw [hofNat, hval, BitVec.ofNat_toNat, BitVec.setWidth_eq]
    rw [hb]
    simp only [hlen, ne_eq, not_true_eq_false, if_false, hhash]

/-- The text is a numeral of the number, which may begin with zeros. -/
structure Numeral (s : Bytes) (n : UInt64) : Prop where
  nonempty : s ≠ []
  digits : s.all isDigit
  value : decimal s = n.toNat

theorem uint64Param_ok_iff {param : String} {s : Bytes} {n : UInt64} :
    uint64Param param s = .ok n ↔ Numeral s n := by
  unfold uint64Param
  constructor
  · intro h
    split at h
    · cases h
    next htext =>
    obtain ⟨hne, hdigits⟩ := not_or.mp htext
    split at h
    · cases h
    next hlt =>
    cases h
    exact ⟨hne, not_not.mp hdigits, (UInt64.toNat_ofNat_of_lt' (not_le.mp hlt)).symm⟩
  · rintro ⟨hne, hdigits, hvalue⟩
    rw [if_neg (not_or.mpr ⟨hne, not_not.mpr hdigits⟩), hvalue, if_neg (not_le.mpr n.toNat_lt), UInt64.ofNat_toNat]

theorem submissionTagParam_ok_iff {form : Option (List SubmissionTag)} {st : SubmissionTag} :
    submissionTagParam form = .ok st ↔
      form = none ∧ st = .threshold ∨ form = some [st] ∧ (st = .end ∨ st = .submit ∨ st = .threshold) := by
  unfold submissionTagParam
  split
  · simp [eq_comm]
  next tag =>
    split
    next htag =>
      simp only [Except.ok.injEq, reduceCtorEq, false_and, false_or, Option.some.injEq, List.cons.injEq, and_true]
      constructor
      · rintro rfl; exact ⟨rfl, htag⟩
      · exact fun h => h.1
    next htag =>
      simp only [reduceCtorEq, false_and, false_or, Option.some.injEq, List.cons.injEq, and_true, false_iff, not_and]
      rintro rfl
      exact htag
  next hone =>
    simp only [reduceCtorEq, false_and, false_or, false_iff, not_and]
    exact fun heq => absurd (Option.some.inj heq) (hone st)

/-! ## The handler -/

/-- A request: the path value, and the query once it is parsed. -/
structure ResultRequest where
  actionID : Bytes
  form : Except PkgErr (Option (List SubmissionTag))

/-- The proxy's own signature of a result. -/
structure ProxySigning where
  payloadHash : UInt64 → Hash → Except PkgErr Hash
  sign : Hash → Except PkgErr Bytes

section Handler

variable (pkg : SigningPkg) (key : ProxySigning) (chainID : UInt64)

/-- `ProxySignature`, over the hash of the result and the chain. -/
def proxySignature (response : ActionResponse) : Except PkgErr Bytes := do
  let resultSignHash ← key.payloadHash chainID (pkg.resultHash response.result)
  key.sign (pkg.textHash resultSignHash)

/-- The response, and the signature it is sent with. -/
def External.resultH (stored : GoMap Queue.Pair ActionResponse) (ok : Bool) (r : ResultRequest) :
    Except ServeErr (ActionResponse × Bytes) := do
  let form ← r.form.mapError .parsingForm
  let id ← hashParam "actionID" r.actionID
  let st ← submissionTagParam form
  let response ← (fetchByID stored ok (id, st)).mapError .serving
  let signature ← (proxySignature pkg key chainID response).mapError .signing
  return (response, signature)

end Handler

/-- The request is for the pair: its text is the ID's, and its tag the one
given, or else `threshold`. -/
structure ResultRequest.Asks (r : ResultRequest) (id : Hash) (st : SubmissionTag) : Prop where
  id : cutPrefix (r.actionID.map toLower) = hashText id
  tag : r.form = .ok none ∧ st = .threshold ∨ r.form = .ok (some [st]) ∧ (st = .end ∨ st = .submit ∨ st = .threshold)

section Answers

variable {op : OpPkg} {pkg : SigningPkg} {key : ProxySigning} {chainID : UInt64} {wallets : Wallets.WalletPkg}
  {stored : GoMap Queue.Pair ActionResponse} {ok : Bool} {r : ResultRequest} {response : ActionResponse}
  {signature : Bytes}

theorem fetchByID_ok_iff {id : Queue.Pair} :
    fetchByID stored ok id = .ok response ↔ ok = true ∧ stored.get? id = some response := by
  unfold fetchByID Result.getResponse
  cases ok with
  | false => simp
  | true => cases stored.get? id <;> simp

theorem asks_iff {id : Hash} {st : SubmissionTag} : r.Asks id st ↔
    ∃ form, r.form = .ok form ∧ hashParam "actionID" r.actionID = .ok id ∧ submissionTagParam form = .ok st := by
  simp only [hashParam_ok_iff, submissionTagParam_ok_iff]
  constructor
  · rintro ⟨hid, ⟨hform, hst⟩ | ⟨hform, hst⟩⟩
    · exact ⟨none, hform, hid, .inl ⟨rfl, hst⟩⟩
    · exact ⟨some [st], hform, hid, .inr ⟨rfl, hst⟩⟩
  · rintro ⟨form, hform, hid, ⟨rfl, hst⟩ | ⟨rfl, hst⟩⟩
    · exact ⟨hid, .inl ⟨hform, hst⟩⟩
    · exact ⟨hid, .inr ⟨hform, hst⟩⟩

/-- Once the response is read, only the signature can fail. -/
theorem resultH_eq {id : Hash} {st : SubmissionTag} (hasks : r.Asks id st)
    (hget : stored.get? (id, st) = some response) :
    External.resultH pkg key chainID stored true r =
      ((proxySignature pkg key chainID response).mapError .signing).map fun signature => (response, signature) := by
  obtain ⟨form, hform, hid, htag⟩ := asks_iff.mp hasks
  have hfetch : fetchByID stored true (id, st) = .ok response := fetchByID_ok_iff.mpr ⟨rfl, hget⟩
  simp only [External.resultH, hform, hid, Except.mapError, bind, Except.bind, htag, hfetch]
  cases proxySignature pkg key chainID response <;> rfl

/-- **What is served**: what is stored for the pair the request asks for. -/
theorem resultH_ok_iff : External.resultH pkg key chainID stored ok r = .ok (response, signature) ↔
    ∃ id st, r.Asks id st ∧ ok = true ∧ stored.get? (id, st) = some response ∧
      proxySignature pkg key chainID response = .ok signature := by
  constructor
  · intro h
    unfold External.resultH at h
    simp only [Except.bind_ok_iff, Except.mapError_ok_iff, Except.pure_ok_iff, Prod.mk.injEq, fetchByID_ok_iff] at h
    obtain ⟨form, hform, id, hid, st, hst, _, ⟨hok, hget⟩, _, hsign, rfl, rfl⟩ := h
    exact ⟨id, st, asks_iff.mpr ⟨form, hform, hid, hst⟩, hok, hget, hsign⟩
  · rintro ⟨id, st, hasks, rfl, hget, hsign⟩
    rw [resultH_eq hasks hget, hsign]
    rfl

end Answers

/-! ## What is stored -/

section Stored

variable {op : OpPkg} {pkg : SigningPkg} {chainID : UInt64} {wallets : Wallets.WalletPkg} {s s' t : Pipeline}
  {e : Delivery} {ok : Pipeline → Delivery → Prop}

/-- A transient response makes way for a final one, and for one of a greater
status. -/
def Supersedes (r res : ActionResponse) : Prop :=
  2 ≤ res.result.status ∧ (r.result.status < 2 ∨ res.result.status < r.result.status)

/-- **What a step does to what is stored.** It leaves it, an entry expires, or
a response is written over one it supersedes, if there is one. -/
inductive Stores (s : Pipeline) : Delivery → Pipeline → Prop
  | kept {f u} : u.stored = s.stored → Stores s f u
  | expired {id u} : u.stored = s.stored.delete id → Stores s (.expire id) u
  | wrote {f u} {r : ActionResponse} : u.stored = s.stored.set (pairOf r) r →
      (∃ x ∈ u.service.written, x.response = r) →
      (∀ res, s.stored.get? (pairOf r) = some res → Supersedes r res) → Stores s f u

theorem supersedes_of_storeResponse {stored : GoMap Queue.Pair ActionResponse} {getOk setOk : Bool}
    {r res : ActionResponse}
    (h : Result.storeResponse ((Result.getResponse stored getOk (pairOf r)).map some) (Result.setResponse setOk r) r =
      .ok ()) (hget : stored.get? (pairOf r) = some res) : Supersedes r res := by
  rw [Result.Wait.storeResponse_eq] at h
  rcases Result.storeResponse_read stored getOk r with ⟨-, heq⟩ | ⟨-, e, heq⟩
  · rw [heq, hget] at h
    rcases Result.guardStore_cases (some res) r with ⟨-, hfinal, htransient⟩ | ⟨herr, -⟩ | ⟨herr, -⟩
    · have hhigh : 2 ≤ res.result.status := UInt8.not_lt.mp fun hlow => hfinal ⟨res, rfl, hlow⟩
      refine ⟨hhigh, ?_⟩
      by_contra hnone
      rw [not_or, UInt8.not_lt, UInt8.not_lt] at hnone
      exact htransient ⟨res, rfl, hhigh, hnone⟩
    · rw [herr] at h; cases h
    · rw [herr] at h; cases h
  · rw [heq] at h
    cases h

theorem stores_of_step (h : Pipeline.step op pkg chainID wallets s e = some s') : Stores s e s' := by
  cases e with
  | setIdentity | process | passOn =>
    obtain ⟨service, -, rfl⟩ := Option.map_eq_some_iff.mp h
    exact .kept rfl
  | store n getOk setOk =>
    simp only [Pipeline.step] at h
    split at h
    · cases h
    next c hc =>
    split at h
    · cases h
    next service hs =>
    split at h
    · cases h; exact .kept rfl
    next hstore =>
      cases h
      refine .wrote rfl ?_ fun res hget => supersedes_of_storeResponse hstore hget
      -- the response of the call is the one the service writes
      simp only [Result.step, hc] at hs
      split at hs
      next number r hr =>
        cases hr
        rw [hstore] at hs
        cases hs
        exact ⟨_, List.mem_append_right _ (List.mem_singleton_self _), rfl⟩
      next => cases hs
  | expire id => cases h; exact .expired rfl
  | receive c =>
    simp only [Pipeline.step] at h
    split at h
    · cases h
    split at h
    · cases h
    split at h <;> cases h <;> exact .kept rfl

theorem written_of_step {v v' : Result.State} {f : Result.Event} (h : Result.step op pkg chainID v f = some v') :
    v.written ⊆ v'.written := by
  cases Result.step_inv h with
  | stored => exact List.subset_append_left _ _
  | _ => exact List.Subset.refl _

/-- A stored response is under its own key, and the service has written it. -/
theorem stored_written (h : Lts.Reach (Pipeline.system op pkg chainID wallets) ok s) :
    ∀ k r, s.stored.get? k = some r → pairOf r = k ∧ ∃ x ∈ s.service.written, x.response = r := by
  refine h.invariant (fun s => ∀ k r, s.stored.get? k = some r →
    pairOf r = k ∧ ∃ x ∈ s.service.written, x.response = r) ?_ ?_
  · rintro s ⟨cache, rfl⟩ k r hk
    cases hk
  · intro s e s' _ ih _ hs k r hk
    have hold : s.stored.get? k = some r → pairOf r = k ∧ ∃ x ∈ s'.service.written, x.response = r := fun hk => by
      obtain ⟨hpair, x, hx, hr⟩ := ih k r hk
      rcases (Pipeline.step_service hs).1 with heq | ⟨f, hf⟩
      · exact ⟨hpair, x, heq ▸ hx, hr⟩
      · exact ⟨hpair, x, written_of_step hf hx, hr⟩
    cases stores_of_step hs with
    | kept heq => exact hold (heq ▸ hk)
    | expired heq =>
      rw [heq, GoMap.get?_delete] at hk
      split at hk
      · cases hk
      · exact hold hk
    | wrote heq hwritten =>
      rw [heq, GoMap.get?_set] at hk
      split at hk
      next hkey => cases hk; exact ⟨hkey.symm, hwritten⟩
      next => exact hold hk

/-- What is stored was posted, and the TEE signed it unless it is a TEE_INFO
response. -/
theorem stored_signed (h : Lts.Reach (Pipeline.system op pkg chainID wallets) ok s) {k : Queue.Pair}
    {r : ActionResponse} (hk : s.stored.get? k = some r) :
    r.result.id ≠ 0 ∧ r ∈ s.service.requests ∧
      (r.result.opCommand ≠ op.commandHash .teeInfo → Signed pkg chainID s.service.teeID r) := by
  obtain ⟨-, x, hx, rfl⟩ := stored_written h _ _ hk
  obtain ⟨hreq, hid, hcheck, hor⟩ := (Result.authentic (Pipeline.reach_service h)).written x hx
  refine ⟨hid, List.mem_of_getElem? hreq, fun hinfo => ?_⟩
  rcases Result.checkSigner_ok hcheck with ⟨hz, hrec⟩ | ⟨-, heq⟩
  · have heq := hor.resolve_left hz
    exact ⟨hid, heq ▸ hz, heq ▸ hrec⟩
  · exact absurd heq hinfo

/-- Under the key there is the response, or one that came in its place. -/
def Holds (k : Queue.Pair) (r : ActionResponse) (t : Pipeline) : Prop :=
  ∃ r', t.stored.get? k = some r' ∧ (r' = r ∨ Supersedes r' r)

theorem Supersedes.trans {a b c : ActionResponse} (hcb : Supersedes c b) (hba : Supersedes b a) : Supersedes c a := by
  refine ⟨hba.1, hcb.2.imp id fun hlt => ?_⟩
  rcases hba.2 with hlow | hba
  · exact absurd hlow (UInt8.not_lt.mpr hcb.1)
  · exact UInt8.lt_trans hba hlt

theorem holds_later {k : Queue.Pair} {r : ActionResponse} (hk : s.stored.get? k = some r)
    (hl : Lts.Later (Pipeline.system op pkg chainID wallets) (fun _ e => e ≠ .expire k) s t) : Holds k r t := by
  induction hl with
  | refl => exact ⟨r, hk, .inl rfl⟩
  | @step t e t' _ hexp hs ih =>
    obtain ⟨r', hget, hr'⟩ := ih
    cases stores_of_step hs with
    | kept heq => exact ⟨r', heq ▸ hget, hr'⟩
    | @expired id _ heq =>
      have hne : k ≠ id := fun heq => hexp (heq ▸ rfl)
      exact ⟨r', by rw [heq, GoMap.get?_delete, if_neg hne]; exact hget, hr'⟩
    | @wrote _ _ x heq _ hsup =>
      by_cases hkey : k = pairOf x
      · have hx : Supersedes x r' := hsup r' (hkey ▸ hget)
        refine ⟨x, by rw [heq, GoMap.get?_set, if_pos hkey], .inr ?_⟩
        rcases hr' with rfl | hr'
        · exact hx
        · exact hx.trans hr'
      · exact ⟨r', by rw [heq, GoMap.get?_set, if_neg hkey]; exact hget, hr'⟩

end Stored

/-! ## What a client gets -/

section Served

variable {op : OpPkg} {pkg : SigningPkg} {key : ProxySigning} {chainID : UInt64} {wallets : Wallets.WalletPkg}
  {s t : Pipeline} {ok : Bool} {r : ResultRequest} {response : ActionResponse} {signature : Bytes}

/-- **A client is served what the node answered.** From an empty storage on,
whatever was posted, stored, refused and expired in whatever order, what is
served has the action ID that
the client wrote and the tag it asked for; the node posted it; it is signed by
the identity of the TEE, unless it is a TEE_INFO response; and the proxy signs
its hash for the chain. -/
theorem served_authentic (h : Lts.Reach (Pipeline.system op pkg chainID wallets) Lts.Free s)
    (hserved : External.resultH pkg key chainID s.stored ok r = .ok (response, signature)) :
    r.Asks response.result.id response.result.submissionTag ∧
    response.result.id ≠ 0 ∧ response ∈ s.service.requests ∧
    (response.result.opCommand ≠ op.commandHash .teeInfo → Signed pkg chainID s.service.teeID response) ∧
    proxySignature pkg key chainID response = .ok signature := by
  obtain ⟨id, st, hasks, -, hget, hsign⟩ := resultH_ok_iff.mp hserved
  obtain ⟨hpair, -⟩ := stored_written h _ _ hget
  obtain ⟨hid, hreq, hsigned⟩ := stored_signed h hget
  cases hpair
  exact ⟨hasks, hid, hreq, hsigned, hsign⟩

/-- The proxy signs with one byte. -/
def ProxySigning.constant : ProxySigning := ⟨fun _ h => .ok h, fun _ => .ok [7]⟩

/-- The ID in capitals, and a tag. -/
def requestFor (id : Hash) (st : SubmissionTag) : ResultRequest := ⟨48 :: 88 :: hashText id, .ok (some [st])⟩

/-- A key result of the TEE 9. -/
def keyGenerated (status : UInt8) : ActionResponse :=
  { Result.plainResponse 2 .keyGenerate [9] with
    result := { (Result.plainResponse 2 .keyGenerate [9]).result with status } }

/-- A transient response is stored, and later a final one. -/
def answeredFirst : List Delivery :=
  [.setIdentity 9, .process (keyGenerated 3), .passOn 0, .store 0 true true]

/-- A final response is posted and stored. -/
def answeredFinally : List Delivery := [.process (keyGenerated 1), .passOn 0, .store 0 true true]

theorem served_authentic_keyGenerated :
    ∃ s : Pipeline,
      External.resultH .named .constant 0 s.stored true (requestFor 2 .submit) = .ok (keyGenerated 3, [7]) ∧
      s.service.teeID = 9 ∧ Signed .named 0 9 (keyGenerated 3) ∧ keyGenerated 3 ∈ s.service.requests := by
  have hrun : ((Pipeline.system .numbered .named 0 .bytes).run Pipeline.emptyPipeline answeredFirst).any fun s =>
      decide (s.service.teeID = 9 ∧
        External.resultH .named .constant 0 s.stored true (requestFor 2 .submit) = .ok (keyGenerated 3, [7])) := by
    decide +kernel
  obtain ⟨s, hs, hend⟩ := (Option.any_eq_true _ _).mp hrun
  obtain ⟨hid, hserved⟩ := of_decide_eq_true hend
  have hreach : Lts.Reach (Pipeline.system .numbered .named 0 .bytes) Lts.Free s :=
    .of_run (.init ⟨_, rfl⟩) (fun _ _ _ => trivial) hs
  obtain ⟨-, -, hreq, hsigned, -⟩ := served_authentic hreach hserved
  exact ⟨s, hserved, hid, hid ▸ hsigned (by decide), hreq⟩

/-- **A final answer stays.** While a response that was served does not expire,
a request for it at which the storage can be read finds it, or one that
superseded it: if it was final, the same client is served the same, and
otherwise what it is served has a greater status, is final, or is the same. -/
theorem served_lasts (hserved : External.resultH pkg key chainID s.stored ok r = .ok (response, signature))
    (h : Lts.Reach (Pipeline.system op pkg chainID wallets) Lts.Free s)
    (hl : Lts.Later (Pipeline.system op pkg chainID wallets) (fun _ e => e ≠ .expire (pairOf response)) s t) :
    (response.result.status < 2 → External.resultH pkg key chainID t.stored true r = .ok (response, signature)) ∧
    (∀ response' signature', External.resultH pkg key chainID t.stored true r = .ok (response', signature') →
      response' = response ∨ Supersedes response' response) ∧
    ∀ e, External.resultH pkg key chainID t.stored true r = .error e → ∃ e', e = .signing e' := by
  obtain ⟨id, st, hasks, -, hget, hsign⟩ := resultH_ok_iff.mp hserved
  obtain ⟨hpair, -⟩ := stored_written h _ _ hget
  rw [hpair] at hl
  obtain ⟨response', hget', hor⟩ := holds_later hget hl
  rw [resultH_eq hasks hget']
  refine ⟨fun hfinal => ?_, fun response'' signature'' hserved' => ?_, fun e herr => ?_⟩
  · have heq : response' = response := hor.resolve_right fun hsup => absurd hfinal (UInt8.not_lt.mpr hsup.1)
    rw [heq, hsign]
    rfl
  · cases hsign' : proxySignature pkg key chainID response' with
    | ok => rw [hsign'] at hserved'; cases hserved'; exact hor
    | error => rw [hsign'] at hserved'; cases hserved'
  · cases hsign' : proxySignature pkg key chainID response' with
    | ok => rw [hsign'] at herr; cases herr
    | error e' => rw [hsign'] at herr; cases herr; exact ⟨e', rfl⟩

theorem served_lasts_keyGenerated :
    ∃ s t : Pipeline,
      External.resultH .named .constant 0 s.stored true (requestFor 2 .submit) = .ok (keyGenerated 3, [7]) ∧
      External.resultH .named .constant 0 t.stored true (requestFor 2 .submit) = .ok (keyGenerated 1, [7]) ∧
      Supersedes (keyGenerated 1) (keyGenerated 3) := by
  have hrun : ((Pipeline.system .numbered .named 0 .bytes).run Pipeline.emptyPipeline answeredFirst).any fun s =>
      decide (External.resultH .named .constant 0 s.stored true (requestFor 2 .submit) = .ok (keyGenerated 3, [7])) &&
        ((Pipeline.system .numbered .named 0 .bytes).run s answeredFinally).any fun t => decide
          (External.resultH .named .constant 0 t.stored true (requestFor 2 .submit) = .ok (keyGenerated 1, [7])) := by
    decide +kernel
  obtain ⟨s, hs, hend⟩ := (Option.any_eq_true _ _).mp hrun
  obtain ⟨hfirst, hrest⟩ := (Bool.and_eq_true _ _).mp hend
  obtain ⟨t, ht, hlast⟩ := (Option.any_eq_true _ _).mp hrest
  have hreach : Lts.Reach (Pipeline.system .numbered .named 0 .bytes) Lts.Free s :=
    .of_run (.init ⟨_, rfl⟩) (fun _ _ _ => trivial) hs
  have hserved := of_decide_eq_true hfirst
  have hserved' := of_decide_eq_true hlast
  have hlater : Lts.Later (Pipeline.system .numbered .named 0 .bytes)
      (fun _ e => e ≠ .expire (pairOf (keyGenerated 3))) s t :=
    .of_run .refl (by rintro _ he s rfl; simp [answeredFinally] at he) ht
  exact ⟨s, t, hserved, hserved', ((served_lasts hserved hreach hlater).2.1 _ _ hserved').resolve_left (by decide)⟩

end Served

end TeeProxy.Server
