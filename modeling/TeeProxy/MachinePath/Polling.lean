/-
Polling for signed machine path lists (`SetMachinePathListAction` of
`pkg/machinepath/machinepath.go` and `internal/service/machinepath`).

A poll takes the highest signed nonce above the last confirmed one, builds
the action of that list from the indexer, enqueues it and waits for the
node. Every call can fail, and then the next poll starts over; the nonce
moves only on a response with status one.

The system is the indexer's logs, the node's responses and the service; a
poll is one step of it. Only the twenty newest events are looked at, so the
highest nonce is selected while its event is among them
(`latestSignedList_highest`).
-/
import TeeProxy.Lib.Lts
import TeeProxy.MachinePath.Lists
import TeeProxy.MachinePath.Safe
import TeeProxy.MachinePath.Signatures
import TeeProxy.Result.Wait

namespace TeeProxy.MachinePath

open Indexer (Log LogsFullParams Database DB)

/-! ## The action -/

/-- `types.SetMachinePathListRequest`. -/
structure SetMachinePathListRequest (Rest : Type) where
  paths : List Path
  nonce : UInt64
  signatures : List Bytes
  safeApproval : Option (Approval Rest)

/-- What building an action calls. `payloadHash` is the hash of a
`TEEMachinePathList` payload of a chain, and `marshalInstruction` the JSON
form of the `SET_MACHINE_PATH_LIST` instruction with a message. -/
structure ListPkg (Rest : Type) where
  abi : ManagerABI
  sort : SortSlice
  sign : SignPkg
  safe : SafePkg Rest
  machinePathListDataHash : Hash → UInt64 → List Path → Except PkgErr Hash
  payloadHash : UInt64 → Hash → Except PkgErr Hash
  marshalRequest : SetMachinePathListRequest Rest → Except PkgErr Bytes
  marshalInstruction : Bytes → Except PkgErr Bytes

/-- The errors of `SetMachinePathListAction`. -/
inductive ActionErr
  | fetchingPaths (e : Err)
  | dataHash (e : PkgErr)
  | messageHash (e : PkgErr)
  | collectingSignatures (e : PkgErr)
  | collectingApproval (e : SafeErr)
  | noAuthorization
  | marshaling (e : PkgErr)
  | preparing (e : PkgErr)
  deriving DecidableEq, Repr

/-- The fields of `Service` that do not change. -/
structure Config where
  managerAddress : Address
  governance : Governance
  extensionID : Hash
  chainID : UInt64

/-- How waiting for a response failed; `canceled` is `errors.Is(err,
context.Canceled)`. -/
structure WaitFailure where
  err : Result.WaitErr
  canceled : Bool
  deriving DecidableEq, Repr

/-- The result storage while one poll waits. A response is stored under the ID
and the tag of its result, and a wait fails or returns what is stored. -/
structure Responses where
  stored : List ActionResponse
  waitOnResponse : Hash → SubmissionTag → Except WaitFailure ActionResponse
  answers : ∀ {id tag r}, waitOnResponse id tag = .ok r → r ∈ stored ∧ r.result.id = id ∧ r.result.submissionTag = tag

/-- What the calls of one poll read: the indexer's logs and its transactions,
the random ID, the queue and the result storage. -/
structure Calls where
  db : Database
  txs : DB
  id : Except PkgErr Hash
  enqueue : Action → Except PkgErr Unit
  responses : Responses

/-- How a poll is counted. A wait that a shutdown ends is not counted. -/
inductive Outcome
  | fetchError | noChange | buildError | noAuthorization | enqueueError | waitError | canceled | rejected | confirmed
  deriving DecidableEq, Repr

section Code

variable {Rest : Type} (pkg : ListPkg Rest) (cfg : Config) (calls : Calls)

/-- The Safe's approval, where governance has a Safe. -/
def safeEvidence (nonce : UInt64) (hash : Hash) (fromBlock toBlock : Int64) :
    Except ActionErr (Option (Approval Rest)) :=
  if cfg.governance.safe ≠ 0 then
    (collectSafeApproval pkg.safe ⟨cfg.governance, cfg.managerAddress, cfg.extensionID, nonce, hash, cfg.chainID,
      fromBlock, toBlock⟩ calls.txs).mapError .collectingApproval
  else .ok none

/-- `SetMachinePathListAction`. -/
def setMachinePathListAction (nonce toBlock : UInt64) : Except ActionErr Action := do
  let (paths, fromBlock) ← (fetchPaths pkg.abi pkg.sort calls.db cfg.managerAddress cfg.extensionID nonce).mapError
    .fetchingPaths
  let dataHash ← (pkg.machinePathListDataHash cfg.extensionID nonce paths).mapError .dataHash
  let hash ← (pkg.payloadHash cfg.chainID dataHash).mapError .messageHash
  let sigs ← (collectSignatures pkg.sign ⟨cfg.managerAddress, cfg.extensionID, nonce, hash, fromBlock.toInt64 - 1,
    toBlock.toInt64⟩ calls.txs).mapError .collectingSignatures
  let approval ← safeEvidence pkg cfg calls nonce hash (fromBlock.toInt64 - 1) toBlock.toInt64
  if sigs.isEmpty ∧ approval.isNone then .error .noAuthorization
  else
    let msg ← (pkg.marshalRequest ⟨paths, nonce, sigs, approval⟩).mapError .marshaling
    (Queue.directInstructionToAction calls.id (pkg.marshalInstruction msg)).mapError .preparing

/-- `poll` up to the queue: the list and its action. -/
def build (lastNonce : UInt64) : Except Outcome (UInt64 × Action) :=
  match latestSignedList pkg.abi calls.db cfg.managerAddress cfg.extensionID lastNonce with
  | .error _ => .error .fetchError
  | .ok none => .error .noChange
  | .ok (some (nonce, toBlock)) => match setMachinePathListAction pkg cfg calls nonce toBlock with
    | .error .noAuthorization => .error .noAuthorization
    | .error _ => .error .buildError
    | .ok action => .ok (nonce, action)

/-- `poll`: `lastNonce` after it, and what is counted. -/
def poll (lastNonce : UInt64) : UInt64 × Outcome :=
  match build pkg cfg calls lastNonce with
  | .error outcome => (lastNonce, outcome)
  | .ok (nonce, action) => match calls.enqueue action with
    | .error _ => (lastNonce, .enqueueError)
    | .ok () => match calls.responses.waitOnResponse action.data.id action.data.submissionTag with
      | .error e => (lastNonce, if e.canceled then .canceled else .waitError)
      | .ok response => if response.result.status ≠ 1 then (lastNonce, .rejected) else (nonce, .confirmed)

/-! ## The system -/

/-- The query of `LatestSignedList`. -/
def signedQuery (abi : ManagerABI) : LogsFullParams :=
  ⟨cfg.managerAddress, ⟨abi.machinePathListSignedEventSel, cfg.extensionID, 0, 0⟩, recentSignedLogsLimit⟩

/-- What has the selector and the ID of the extension is a signed list. -/
def Genuine (abi : ManagerABI) (log : Log) : Prop :=
  (signedQuery cfg abi).selects log = true → (readSigned abi log).toOption.isSome = true

instance (abi : ManagerABI) (log : Log) : Decidable (Genuine cfg abi log) := by
  unfold Genuine; infer_instance

/-- `logs` are the indexer's, `responses` all that the node has answered, and
`submitted` the actions handed to the queue, each with the nonce it is for. -/
structure State where
  logs : List Log
  responses : List ActionResponse
  lastNonce : UInt64
  submitted : List (UInt64 × Action)

/-- The indexer gets a log, or the service polls. -/
inductive Event
  | indexed (log : Log)
  | poll (calls : Calls) (answered : List ActionResponse)

/-- A poll, with what it handed to the queue. -/
def State.polled (s : State) : State where
  logs := s.logs
  responses := calls.responses.stored
  lastNonce := (poll pkg cfg calls s.lastNonce).1
  submitted := s.submitted ++ (build pkg cfg calls s.lastNonce).toOption.toList

/-- A poll reads the logs that are indexed, and the node answers while it
waits. -/
def step (s : State) : Event → Option State
  | .indexed log => if Genuine cfg pkg.abi log then some { s with logs := log :: s.logs } else none
  | .poll calls answered =>
    if calls.db.logs = s.logs ∧ calls.responses.stored = s.responses ++ answered then some (s.polled pkg cfg calls)
    else none

/-- The service starts with the nonce the node reported. -/
def system (initialNonce : UInt64) : Lts.System State Event where
  init s := s = ⟨[], [], initialNonce, []⟩
  step := step pkg cfg

end Code

/-! ## Lists and actions -/

section Polls

variable {Rest : Type} {pkg : ListPkg Rest} {cfg : Config} {calls : Calls} {abi : ManagerABI}
  {afterNonce lastNonce nonce toBlock : UInt64} {action : Action}

/-- The action carries a request for the list with the nonce. -/
def ActionFor (pkg : ListPkg Rest) (nonce : UInt64) (action : Action) : Prop :=
  ∃ request msg, request.nonce = nonce ∧ pkg.marshalRequest request = .ok msg ∧
    pkg.marshalInstruction msg = .ok action.data.message

/-- The node answered the action with status one. -/
def Confirms (response : ActionResponse) (action : Action) : Prop :=
  response.result.id = action.data.id ∧ response.result.submissionTag = action.data.submissionTag ∧
    response.result.status = 1

theorem selectList_gt {logs : List Log} : ∀ {found : Option (UInt64 × UInt64)} {n b : UInt64},
    (∀ best, found = some best → afterNonce < best.1) →
      selectList abi afterNonce found logs = .ok (some (n, b)) → afterNonce < n := by
  induction logs with
  | nil =>
    intro found n b hfound h
    exact hfound _ (Except.ok.inj h)
  | cons log logs ih =>
    intro found n b hfound h
    unfold selectList at h
    obtain ⟨event, -, h⟩ := Except.bind_ok_iff.mp h
    dsimp only at h
    split at h
    · split at h
      next hgt =>
        refine ih (fun best hbest => ?_) h
        cases hbest
        exact hgt.1
      · exact ih hfound h
    · exact ih hfound h

theorem latestSignedList_gt {db : Database} {managerAddress : Address} {extensionID : Hash}
    (h : latestSignedList abi db managerAddress extensionID afterNonce = .ok (some (nonce, toBlock))) :
    afterNonce < nonce := by
  obtain ⟨rows, -, h⟩ := Except.bind_ok_iff.mp h
  exact selectList_gt (fun best hbest => by cases hbest) h

theorem setMachinePathListAction_ok (h : setMachinePathListAction pkg cfg calls nonce toBlock = .ok action) :
    ActionFor pkg nonce action := by
  unfold setMachinePathListAction at h
  simp only [Except.bind_ok_iff, Except.mapError_ok_iff] at h
  obtain ⟨⟨paths, fromBlock⟩, -, dataHash, -, hash, -, sigs, -, approval, -, h⟩ := h
  split at h
  · cases h
  · obtain ⟨msg, hmsg, h⟩ := Except.bind_ok_iff.mp h
    rw [Except.mapError_ok_iff] at hmsg h
    exact ⟨_, msg, rfl, hmsg, Queue.directInstructionToAction_message h⟩

theorem build_ok (h : build pkg cfg calls lastNonce = .ok (nonce, action)) :
    lastNonce < nonce ∧ ActionFor pkg nonce action := by
  unfold build at h
  split at h
  · cases h
  · cases h
  next hlist =>
  split at h
  · cases h
  · cases h
  next haction =>
    cases h
    exact ⟨latestSignedList_gt hlist, setMachinePathListAction_ok haction⟩

/-- What a poll does to the nonce: nothing, or it takes the nonce of an action
that the node has answered with status one. -/
theorem poll_lastNonce (lastNonce : UInt64) : (poll pkg cfg calls lastNonce).1 = lastNonce ∨
    ∃ nonce action response, build pkg cfg calls lastNonce = .ok (nonce, action) ∧
      response ∈ calls.responses.stored ∧ Confirms response action ∧ (poll pkg cfg calls lastNonce).1 = nonce := by
  unfold poll
  split
  · exact .inl rfl
  next nonce action hbuild =>
  split
  · exact .inl rfl
  split
  · exact .inl rfl
  next response hwait =>
  split
  · exact .inl rfl
  next hstatus =>
    obtain ⟨hstored, hid, htag⟩ := calls.responses.answers hwait
    exact .inr ⟨nonce, action, response, hbuild, hstored, ⟨hid, htag, not_not.mp hstatus⟩, rfl⟩

end Polls

/-! ## The highest nonce -/

section Highest

variable {abi : ManagerABI} {cfg : Config} {db : Database} {log : Log} {rows : List Log} {afterNonce : UInt64}

/-- The nonce of a log that is a signed list of the extension. -/
def signedNonce (abi : ManagerABI) (cfg : Config) (log : Log) : Option Nat :=
  if log.address = cfg.managerAddress then
    match readSigned abi log with
    | .ok event => if event.extensionId = cfg.extensionID.toNat then some event.nonce else none
    | .error _ => none
  else none

/-- How many signed lists of the extension are not older than a log. -/
def notOlder (abi : ManagerABI) (cfg : Config) (logs : List Log) (log : Log) : Nat :=
  logs.countP fun l => decide (log.timestamp ≤ l.timestamp) && (signedNonce abi cfg l).isSome

theorem signedNonce_eq_some {n : Nat} : signedNonce abi cfg log = some n ↔
    log.address = cfg.managerAddress ∧ readSigned abi log = .ok ⟨cfg.extensionID.toNat, n⟩ := by
  unfold signedNonce
  constructor
  · intro h
    split at h
    next haddr =>
      split at h
      next event hread =>
        split at h
        next hid =>
          cases h
          exact ⟨haddr, by rw [hread, ← hid]⟩
        · cases h
      · cases h
    · cases h
  · rintro ⟨haddr, hread⟩
    rw [if_pos haddr, hread]
    exact if_pos rfl

/-- The query selects the signed lists of the extension, and nothing else. -/
theorem selects_eq_isSome (hext : cfg.extensionID ≠ 0) (hgen : Genuine cfg abi log) :
    (signedQuery cfg abi).selects log = (signedNonce abi cfg log).isSome := by
  rw [Bool.eq_iff_iff, Option.isSome_iff_exists]
  constructor
  · intro hsel
    obtain ⟨event, hevent⟩ := Except.exists_ok_of_isSome (hgen hsel)
    obtain ⟨haddr, -, htopic, -, -⟩ := Indexer.selects_iff.mp hsel
    have hid : log.topics.topic1 = cfg.extensionID := (Indexer.admits_iff hext).mp htopic
    refine ⟨log.topics.topic2.toNat, signedNonce_eq_some.mpr ⟨haddr, ?_⟩⟩
    rw [hevent, (readSigned_ok hevent).2, hid]
  · rintro ⟨n, hn⟩
    obtain ⟨haddr, hread⟩ := signedNonce_eq_some.mp hn
    have hid := congrArg MachinePathListSigned.extensionId (readSigned_ok hread).2
    have htopic : log.topics.topic1 = cfg.extensionID := (BitVec.eq_of_toNat_eq hid).symm
    refine Indexer.selects_iff.mpr ⟨haddr, ?_, ?_, by simp [signedQuery, Indexer.admits],
      by simp [signedQuery, Indexer.admits]⟩
    · simp [signedQuery, Indexer.admits, (readSigned_ok hread).1]
    · simp [signedQuery, Indexer.admits, htopic]

theorem selectList_total : ∀ {logs : List Log} (found : Option (UInt64 × UInt64)),
    (∀ log ∈ logs, ∃ event, readSigned abi log = .ok event) → ∃ r, selectList abi afterNonce found logs = .ok r
  | [], found, _ => ⟨found, rfl⟩
  | log :: logs, found, hread => by
    obtain ⟨event, hevent⟩ := hread log List.mem_cons_self
    have hrest : ∀ l ∈ logs, ∃ event, readSigned abi l = .ok event := fun l hl => hread l (List.mem_cons_of_mem _ hl)
    simp only [selectList, hevent, bind, Except.bind]
    split
    · split
      · exact selectList_total _ hrest
      · exact selectList_total _ hrest
    · exact selectList_total _ hrest

/-- Nothing beats what the loop ends with: neither what it had nor a nonce of
64 bits that it read. -/
theorem selectList_ge {logs : List Log} : ∀ {found r : Option (UInt64 × UInt64)},
    selectList abi afterNonce found logs = .ok r →
      (∀ best, found = some best → ∃ n b, r = some (n, b) ∧ best.1 ≤ n) ∧
      ∀ log ∈ logs, ∀ event, readSigned abi log = .ok event → event.nonce < 2 ^ 64 →
        afterNonce.toNat < event.nonce → ∃ n b, r = some (n, b) ∧ event.nonce ≤ n.toNat := by
  induction logs with
  | nil =>
    intro found r h
    cases h
    refine ⟨fun best hbest => ⟨best.1, best.2, hbest, UInt64.le_refl _⟩, fun log hlog => ?_⟩
    cases hlog
  | cons log logs ih =>
    intro found r h
    unfold selectList at h
    obtain ⟨event, hevent, h⟩ := Except.bind_ok_iff.mp h
    dsimp only at h
    -- the head apart, the rest is read in the same way
    have hcons : ∀ {found' : Option (UInt64 × UInt64)}, selectList abi afterNonce found' logs = .ok r →
        (event.nonce < 2 ^ 64 → afterNonce.toNat < event.nonce → ∃ n b, r = some (n, b) ∧ event.nonce ≤ n.toNat) →
        ∀ l ∈ log :: logs, ∀ e, readSigned abi l = .ok e → e.nonce < 2 ^ 64 → afterNonce.toNat < e.nonce →
          ∃ n b, r = some (n, b) ∧ e.nonce ≤ n.toNat := by
      intro found' h' hhead l hl e he
      rcases List.mem_cons.mp hl with rfl | hl
      · rw [hevent] at he
        cases he
        exact hhead
      · exact (ih h').2 l hl e he
    split at h
    next h64 =>
      have hof : (UInt64.ofNat event.nonce).toNat = event.nonce := UInt64.toNat_ofNat_of_lt' h64
      split at h
      next hbeats =>
        obtain ⟨n, b, hr, hle⟩ := (ih h).1 _ rfl
        rw [UInt64.le_iff_toNat_le, hof] at hle
        refine ⟨fun best hbest => ⟨n, b, hr, ?_⟩, hcons h fun _ _ => ⟨n, b, hr, hle⟩⟩
        have hgt : best.1 < UInt64.ofNat event.nonce := by simpa [hbest] using hbeats.2
        rw [UInt64.lt_iff_toNat_lt, hof] at hgt
        rw [UInt64.le_iff_toNat_le]
        omega
      next hbeaten =>
        refine ⟨(ih h).1, hcons h fun _ hgt => ?_⟩
        have hafter : UInt64.ofNat event.nonce > afterNonce := by
          rw [gt_iff_lt, UInt64.lt_iff_toNat_lt, hof]
          exact hgt
        cases found with
        | none => exact absurd ⟨hafter, rfl⟩ hbeaten
        | some best =>
          have hle : ¬ best.1 < UInt64.ofNat event.nonce := fun hlt => hbeaten ⟨hafter, by simpa using hlt⟩
          obtain ⟨n, b, hr, hn⟩ := (ih h).1 best rfl
          rw [UInt64.lt_iff_toNat_lt, hof] at hle
          rw [UInt64.le_iff_toNat_le] at hn
          exact ⟨n, b, hr, by omega⟩
    next h64 => exact ⟨(ih h).1, hcons h fun hlt => absurd hlt h64⟩

/-- **The highest nonce is selected.** Where the signed list of the highest
nonce of 64 bits is among the twenty newest, with its equals in time, and
above `afterNonce`, it is the answer, with the block of an event of that
nonce. -/
theorem latestSignedList_highest (hext : cfg.extensionID ≠ 0) (hgen : ∀ l ∈ db.logs, Genuine cfg abi l)
    (hrows : db.fetchLogsFull (signedQuery cfg abi) = .ok rows) {n : Nat} (hlog : log ∈ db.logs)
    (hnonce : signedNonce abi cfg log = some n) (h64 : n < 2 ^ 64) (hafter : afterNonce.toNat < n)
    (hmax : ∀ l ∈ db.logs, ∀ m, signedNonce abi cfg l = some m → m < 2 ^ 64 → m ≤ n)
    (hnew : notOlder abi cfg db.logs log ≤ 20) :
    ∃ l ∈ db.logs, signedNonce abi cfg l = some n ∧
      latestSignedList abi db cfg.managerAddress cfg.extensionID afterNonce = .ok (some (.ofNat n, l.blockNumber)) := by
  have hrow : ∀ l ∈ rows, l ∈ db.logs ∧ ∃ m, signedNonce abi cfg l = some m := fun l hl => by
    obtain ⟨hmem, hsel⟩ := Database.row_selected hrows hl
    exact ⟨hmem, Option.isSome_iff_exists.mp ((selects_eq_isSome hext (hgen l hmem)).symm.trans hsel)⟩
  have hin : log ∈ rows := by
    refine (db.answers hrows).mem hlog ?_ ?_
    · rw [selects_eq_isSome hext (hgen log hlog), hnonce]
      rfl
    · refine (List.countP_mono_left fun l hl h => ?_).trans hnew
      rwa [selects_eq_isSome hext (hgen l hl)] at h
  have hread : ∀ l ∈ rows, ∃ event, readSigned abi l = .ok event := fun l hl => by
    obtain ⟨-, m, hm⟩ := hrow l hl
    exact ⟨_, (signedNonce_eq_some.mp hm).2⟩
  obtain ⟨r, hr⟩ := @selectList_total abi afterNonce rows none hread
  obtain ⟨n', b, rfl, hge⟩ := (selectList_ge hr).2 log hin _ (signedNonce_eq_some.mp hnonce).2 h64 hafter
  rcases selectList_ok hr with hnone | ⟨l, hl, event, hevent, hn', hb⟩
  · cases hnone
  obtain ⟨hmem, m, hm⟩ := hrow l hl
  have hevent' := (signedNonce_eq_some.mp hm).2
  rw [hevent] at hevent'
  cases hevent'
  dsimp only at hn' hge
  have hle := hmax l hmem m hm (by have := n'.toNat_lt; omega)
  have heq : m = n := by omega
  refine ⟨l, hmem, heq ▸ hm, ?_⟩
  have hof : UInt64.ofNat n = n' := by rw [← heq, hn', UInt64.ofNat_toNat]
  rw [hof, hb]
  exact Except.bind_ok_iff.mpr ⟨rows, Except.mapError_ok_iff.mpr hrows, hr⟩

end Highest

/-! ## Runs -/

section Runs

variable {Rest : Type} {pkg : ListPkg Rest} {cfg : Config} {initialNonce : UInt64} {s s' : State} {event : Event}

/-- What one step does: a log is indexed, or a poll runs on the indexed logs
and responses. -/
inductive Step (pkg : ListPkg Rest) (cfg : Config) (s : State) : Event → State → Prop
  | indexed {log : Log} (hgen : Genuine cfg pkg.abi log) :
      Step pkg cfg s (.indexed log) { s with logs := log :: s.logs }
  | polled {calls : Calls} {answered : List ActionResponse} (hlogs : calls.db.logs = s.logs)
      (hstored : calls.responses.stored = s.responses ++ answered) :
      Step pkg cfg s (.poll calls answered) (s.polled pkg cfg calls)

theorem step_inv (h : step pkg cfg s event = some s') : Step pkg cfg s event s' := by
  unfold step at h
  split at h
  · split at h
    next hgen =>
      cases h
      exact .indexed hgen
    · cases h
  · split at h
    next hcalls =>
      cases h
      exact .polled hcalls.1 hcalls.2
    · cases h

/-- The nonce is the first one, or that of an action the node has answered. -/
def Justified (pkg : ListPkg Rest) (initialNonce : UInt64) (s : State) : Prop :=
  s.lastNonce = initialNonce ∨ ∃ action, (s.lastNonce, action) ∈ s.submitted ∧ ActionFor pkg s.lastNonce action ∧
    ∃ response ∈ s.responses, Confirms response action

theorem Step.lastNonce_le (h : Step pkg cfg s event s') : s.lastNonce ≤ s'.lastNonce := by
  cases h with
  | indexed => exact UInt64.le_refl _
  | @polled calls answered =>
    change s.lastNonce ≤ (poll pkg cfg calls s.lastNonce).1
    rcases @poll_lastNonce _ pkg cfg calls s.lastNonce with heq | ⟨nonce, action, response, hbuild, -, -, heq⟩
    · rw [heq]
      exact UInt64.le_refl _
    · rw [heq]
      exact UInt64.le_of_lt (build_ok hbuild).1

/-- What is handed to the queue is for a nonce above the last. -/
theorem Step.submits (h : Step pkg cfg s event s') : s'.submitted = s.submitted ∨
    ∃ nonce action, s'.submitted = s.submitted ++ [(nonce, action)] ∧ s.lastNonce < nonce ∧
      ActionFor pkg nonce action := by
  cases h with
  | indexed => exact .inl rfl
  | @polled calls answered =>
    change s.submitted ++ (build pkg cfg calls s.lastNonce).toOption.toList = _ ∨ _
    cases hbuild : build pkg cfg calls s.lastNonce with
    | error e => exact .inl (List.append_nil _)
    | ok r => exact .inr ⟨r.1, r.2, by rw [State.polled, hbuild]; rfl, build_ok hbuild⟩

theorem Step.justified (h : Step pkg cfg s event s') (hs : Justified pkg initialNonce s) :
    Justified pkg initialNonce s' := by
  cases h with
  | indexed => exact hs
  | @polled calls answered hlogs hstored =>
    rcases @poll_lastNonce _ pkg cfg calls s.lastNonce with heq | ⟨nonce, action, response, hbuild, hmem, hconf, heq⟩
    · rcases hs with hinit | ⟨action, hsub, hfor, response, hmem, hconf⟩
      · exact .inl (heq.trans hinit)
      · refine .inr ⟨action, ?_, ?_, response, ?_, hconf⟩
        · rw [State.polled, heq]
          exact List.mem_append_left _ hsub
        · rw [State.polled, heq]
          exact hfor
        · rw [State.polled, hstored]
          exact List.mem_append_left _ hmem
    · refine .inr ⟨action, ?_, ?_, response, hmem, hconf⟩
      · rw [State.polled, heq, hbuild]
        exact List.mem_append_right _ List.mem_cons_self
      · rw [State.polled, heq]
        exact (build_ok hbuild).2

theorem Step.genuine (h : Step pkg cfg s event s') (hs : ∀ log ∈ s.logs, Genuine cfg pkg.abi log) :
    ∀ log ∈ s'.logs, Genuine cfg pkg.abi log := by
  cases h with
  | indexed hgen =>
    intro l hl
    rcases List.mem_cons.mp hl with rfl | hl
    · exact hgen
    · exact hs l hl
  | polled => exact hs

theorem genuine_of_reach (h : Lts.Reach (system pkg cfg initialNonce) Lts.Free s) :
    ∀ log ∈ s.logs, Genuine cfg pkg.abi log := by
  refine h.invariant (fun s => ∀ log ∈ s.logs, Genuine cfg pkg.abi log) ?_ fun s e s' _ hs _ hstep =>
    (step_inv hstep).genuine hs
  rintro s rfl log hlog
  cases hlog

theorem justified_of_reach (h : Lts.Reach (system pkg cfg initialNonce) Lts.Free s) : Justified pkg initialNonce s := by
  refine h.invariant (Justified pkg initialNonce) ?_ fun s e s' _ hs _ hstep => (step_inv hstep).justified hs
  rintro s rfl
  exact .inl rfl

end Runs

/-- **Polling follows the highest signed list.** Whatever is indexed between
polls and whichever call fails, the last nonce never decreases, it is the
first one or that of an action which the node answered with status one, and
an action is handed to the queue only for a nonce above it. A poll whose
query is answered selects the highest nonce of 64 bits and the block of one
of its events, if it is above the last and at most twenty events, itself
among them, are not older. -/
theorem polling_follows_highest {Rest : Type} (pkg : ListPkg Rest) (cfg : Config) (hext : cfg.extensionID ≠ 0)
    (initialNonce : UInt64) (s : State) (hs : Lts.Reach (system pkg cfg initialNonce) Lts.Free s) :
    (∀ s', Lts.Later (system pkg cfg initialNonce) Lts.Free s s' → s.lastNonce ≤ s'.lastNonce) ∧
    Justified pkg initialNonce s ∧
    (∀ event s', step pkg cfg s event = some s' → s'.submitted = s.submitted ∨
      ∃ nonce action, s'.submitted = s.submitted ++ [(nonce, action)] ∧ s.lastNonce < nonce ∧
        ActionFor pkg nonce action) ∧
    ∀ (calls : Calls) rows log (n : Nat), calls.db.logs = s.logs →
      calls.db.fetchLogsFull (signedQuery cfg pkg.abi) = .ok rows →
      log ∈ s.logs → signedNonce pkg.abi cfg log = some n → n < 2 ^ 64 → s.lastNonce.toNat < n →
      (∀ l ∈ s.logs, ∀ m, signedNonce pkg.abi cfg l = some m → m < 2 ^ 64 → m ≤ n) →
      notOlder pkg.abi cfg s.logs log ≤ 20 →
      ∃ l ∈ s.logs, signedNonce pkg.abi cfg l = some n ∧
        latestSignedList pkg.abi calls.db cfg.managerAddress cfg.extensionID s.lastNonce =
          .ok (some (.ofNat n, l.blockNumber)) := by
  refine ⟨fun s' hl => ?_, justified_of_reach hs, fun event s' hstep => (step_inv hstep).submits, ?_⟩
  · exact Lts.Later.relation (fun s s' : State => s.lastNonce ≤ s'.lastNonce) (fun _ => UInt64.le_refl _)
      (fun _ _ _ h h' => UInt64.le_trans h h') (fun _ _ _ _ _ hstep => (step_inv hstep).lastNonce_le) hs hl
  · intro calls rows log n hlogs hrows hlog hnonce h64 hafter hmax hnew
    have hgen := genuine_of_reach hs
    rw [← hlogs] at hgen hlog hmax hnew ⊢
    exact latestSignedList_highest hext hgen hrows hlog hnonce h64 hafter hmax hnew

/-- An indexer whose logs are all of time 7. -/
def timeSeven (logs : List Log) (h : ∀ l ∈ logs, l.timestamp = 7) : Database where
  logs
  fetchLogsFull params := .ok (params.limit (logs.filter params.selects))
  answers := by
    rintro params rows ⟨⟩
    refine ⟨_, .refl _, List.Pairwise.filter _ (List.pairwise_of_forall_mem_list fun l hl l' hl' => ?_), rfl⟩
    rw [h l hl, h l' hl']
    exact UInt64.le_refl _

/-- Bindings in which bytes stand for everything. -/
def ListPkg.bytewise : ListPkg Unit where
  abi := plainABI
  sort := .merge
  sign := .bytewise
  safe := .bytewise
  machinePathListDataHash _ nonce _ := .ok (uint64ToHash nonce)
  payloadHash _ hash := .ok hash
  marshalRequest request := .ok [request.nonce.toUInt8]
  marshalInstruction msg := .ok msg

/-- Extension 2, without a Safe. -/
def extensionTwo : Config := ⟨9, ⟨0, [], 0⟩, 2, 14⟩

/-- List 3 gets a path in block 12. -/
def pathOfThree : Log := ⟨9, ⟨2, 2, 3, 0⟩, [5], 12, 0, 7, none⟩

/-- A list of extension two was signed. -/
def listSigned (nonce : Hash) (block : UInt64) : Log := ⟨9, ⟨1, 2, nonce, 0⟩, [], block, 0, 7, none⟩

/-- The node's answer to the action with ID 77. -/
def accepted : ActionResponse := ⟨⟨77, .submit, 1, 0, 0, []⟩, []⟩

/-- A signature of list 3 is indexed, and the node accepts the action. -/
def callsForThree : Calls where
  db := timeSeven [listSigned 3 15, pathOfThree] (by decide)
  txs := .of [] [signedList 13 1 2 3 28]
  id := .ok 77
  enqueue _ := .ok ()
  responses :=
    { stored := [accepted]
      waitOnResponse := fun id tag => if id = 77 ∧ tag = .submit then .ok accepted else .error ⟨.waiting, false⟩
      answers := by
        intro id tag r h
        split at h
        next hkey => cases h; exact ⟨List.mem_cons_self, hkey.1.symm, hkey.2.symm⟩
        · cases h }

/-- List 3 is confirmed; then list 4 is signed, and the next poll selects it. -/
theorem polling_from_three_to_four :
    ∃ s, Lts.Reach (system .bytewise extensionTwo 0) Lts.Free s ∧ Justified ListPkg.bytewise 0 s ∧ s.lastNonce = 3 ∧
      latestSignedList plainABI (timeSeven [listSigned 4 16, listSigned 3 15, pathOfThree] (by decide)) 9 2
        s.lastNonce =
        .ok (some (4, 16)) := by
  have hrun : ((system .bytewise extensionTwo 0).run ⟨[], [], 0, []⟩ [.indexed pathOfThree, .indexed (listSigned 3 15),
      .poll callsForThree [accepted], .indexed (listSigned 4 16)]).any (fun s =>
      decide (s.lastNonce = 3 ∧ s.logs = [listSigned 4 16, listSigned 3 15, pathOfThree])) = true := by decide +kernel
  obtain ⟨s, hs, hend⟩ := (Option.any_eq_true _ _).mp hrun
  obtain ⟨hlast, hlogs⟩ := of_decide_eq_true hend
  have hreach : Lts.Reach (system .bytewise extensionTwo 0) Lts.Free s := .of_run (.init rfl) (fun _ _ _ => trivial) hs
  obtain ⟨-, hjust, -, hselects⟩ := polling_follows_highest .bytewise extensionTwo (by decide) 0 s hreach
  obtain ⟨l, hl, hn, hlist⟩ := hselects
    { callsForThree with db := timeSeven [listSigned 4 16, listSigned 3 15, pathOfThree] (by decide) } _
    (listSigned 4 16) 4 hlogs.symm rfl (hlogs ▸ List.mem_cons_self) (by decide +kernel) (by decide)
    (by rw [hlast]; decide) (by rw [hlogs]; decide +kernel) (by rw [hlogs]; decide +kernel)
  have hblock : ∀ l ∈ [listSigned 4 16, listSigned 3 15, pathOfThree],
      signedNonce plainABI extensionTwo l = some 4 → l.blockNumber = 16 := by decide +kernel
  refine ⟨s, hreach, hjust, hlast, hlist.trans ?_⟩
  rw [hblock l (hlogs ▸ hl) hn]
  rfl

end TeeProxy.MachinePath
