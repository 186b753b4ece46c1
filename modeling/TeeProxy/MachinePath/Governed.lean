/-
The evidence behind a machine path list (`resolveGovernance` of
`internal/proxy/governance.go`, `Governance` of `pkg/config/config.go`, and the
polls of `internal/service/machinepath`).

The configured governance is compared with the node's by its hash, once, when
the service starts; the polls then check approvals of the Safe against it. So
what the node gets with a list is what it will look for itself: signatures of
the list's hash by distinct signers, each from a transaction that succeeded on
chain, or an approval that verifies for the owners the node has.

The indexer is behind the chain, so what a poll reads is a part of what is on
chain. A governance that is not configured has no Safe, and then no approval is
ever sent.
-/
import TeeProxy.MachinePath.Polling

namespace TeeProxy.MachinePath

open Indexer (Log LogRow TxRow DB logRows)

/-! ## The configured governance -/

/-- `config.Governance`. -/
structure GovernanceConfig where
  signers : List Address
  threshold : UInt64
  safe : Address
  teeManager : Address
  deriving DecidableEq, Repr

/-- The errors of `validate` and of the check of the manager. -/
inductive GovernanceErr
  | incomplete
  | thresholdTooHigh
  | zeroSigner
  | safePairing
  | withoutManager
  deriving DecidableEq, Repr

def GovernanceConfig.isSet (g : GovernanceConfig) : Bool :=
  g.signers.length > 0 ∨ g.threshold ≠ 0 ∨ g.safe ≠ 0 ∨ g.teeManager ≠ 0

def GovernanceConfig.safeBacked (g : GovernanceConfig) : Bool := g.safe ≠ 0

def GovernanceConfig.validate (g : GovernanceConfig) : Except GovernanceErr Unit :=
  if !g.isSet then .ok ()
  else if g.signers.length = 0 ∨ g.threshold = 0 then .error .incomplete
  else if g.threshold > .ofNat g.signers.length then .error .thresholdTooHigh
  else if 0 ∈ g.signers then .error .zeroSigner
  else if decide (g.safe = 0) ≠ decide (g.teeManager = 0) then .error .safePairing
  else .ok ()

/-- What `Read` asks of the governance and the manager's address. -/
def checkGovernance (g : GovernanceConfig) (machinePathManager : Address) : Except GovernanceErr Unit := do
  g.validate
  if g.isSet ∧ machinePathManager = 0 then throw .withoutManager

/-- The hashes of tee-node. -/
structure GovernancePkg where
  governanceHash : List Address → UInt64 → Except PkgErr Hash
  governanceHashSafe : Address → Address → List Address → UInt64 → Except PkgErr Hash

/-- The hash of a governance, plain or with a Safe. -/
def GovernancePkg.hash (pkg : GovernancePkg) (g : GovernanceConfig) : Except PkgErr Hash :=
  if g.safeBacked then pkg.governanceHashSafe g.teeManager g.safe g.signers g.threshold
  else pkg.governanceHash g.signers g.threshold

/-- The errors of `resolveGovernance`. -/
inductive ResolveErr
  | hashing (e : PkgErr)
  | mismatch (expected nodeGovernanceHash : Hash)
  deriving DecidableEq, Repr

/-- `types.Governance`, with the fields the polls do not read. -/
structure ResolvedGovernance extends Governance where
  teeManager : Address
  hash : Hash

/-- `resolveGovernance`: a governance that is configured has to have the hash
that the node reports. -/
def resolveGovernance (pkg : GovernancePkg) (g : GovernanceConfig) (nodeGovernanceHash : Hash) :
    Except ResolveErr ResolvedGovernance :=
  if !g.isSet then .ok ⟨⟨0, [], 0⟩, 0, 0⟩
  else match pkg.hash g with
    | .error e => .error (.hashing e)
    | .ok expected =>
      if expected ≠ nodeGovernanceHash then .error (.mismatch expected nodeGovernanceHash)
      else .ok ⟨⟨g.safe, g.signers, g.threshold⟩, g.teeManager, expected⟩

/-- What the service takes from the node's initial info. -/
structure NodeInfo where
  governanceHash : Hash
  extensionID : Hash
  machinePathListNonce : UInt64

/-- How `Run` starts the service: not at all, if the manager has no address. -/
def startService (pkg : GovernancePkg) (g : GovernanceConfig) (machinePathManager : Address) (chainID : UInt64)
    (info : NodeInfo) : Except ResolveErr (Option (Config × UInt64)) :=
  if machinePathManager = 0 then .ok none
  else do
    let governance ← resolveGovernance pkg g info.governanceHash
    return some (⟨machinePathManager, governance.toGovernance, info.extensionID, chainID⟩, info.machinePathListNonce)

section Resolved

variable {pkg : GovernancePkg} {g : GovernanceConfig} {machinePathManager : Address} {chainID : UInt64}
  {info : NodeInfo} {cfg : Config} {initialNonce : UInt64}

/-- A Safe that was configured has owners, and a threshold they can reach. -/
theorem validate_safe (h : g.validate = .ok ()) (hsafe : g.safe ≠ 0) :
    0 < g.threshold ∧ g.threshold ≤ .ofNat g.signers.length ∧ 0 ∉ g.signers := by
  have hset : g.isSet = true := decide_eq_true (.inr (.inr (.inl hsafe)))
  unfold GovernanceConfig.validate at h
  simp only [hset, Bool.not_true, Bool.false_eq_true, if_false] at h
  split at h
  · cases h
  next hcomplete =>
  split at h
  · cases h
  next hreached =>
  split at h
  · cases h
  next hzero =>
    rw [not_or] at hcomplete
    exact ⟨UInt64.pos_iff_ne_zero.mpr hcomplete.2, UInt64.not_lt.mp hreached, hzero⟩

/-- **What approvals are checked against**: nothing, without a Safe; or the
configured governance, and then the node reports its hash. -/
theorem resolveGovernance_safe {governance : ResolvedGovernance} {nodeGovernanceHash : Hash}
    (h : resolveGovernance pkg g nodeGovernanceHash = .ok governance) (hsafe : governance.safe ≠ 0) :
    pkg.hash g = .ok nodeGovernanceHash ∧ governance.toGovernance = ⟨g.safe, g.signers, g.threshold⟩ := by
  unfold resolveGovernance at h
  split at h
  · cases h
    exact absurd rfl hsafe
  split at h
  · cases h
  next expected hexpected =>
  split at h
  · cases h
  next hsame =>
    cases h
    exact ⟨not_not.mp hsame ▸ hexpected, rfl⟩

theorem startService_ok (h : startService pkg g machinePathManager chainID info = .ok (some (cfg, initialNonce))) :
    ∃ governance, resolveGovernance pkg g info.governanceHash = .ok governance ∧
      cfg = ⟨machinePathManager, governance.toGovernance, info.extensionID, chainID⟩ ∧
      initialNonce = info.machinePathListNonce := by
  unfold startService at h
  split at h
  · cases h
  simp only [Except.bind_ok_iff, Except.pure_ok_iff, Option.some.injEq, Prod.mk.injEq] at h
  obtain ⟨governance, hresolve, hcfg, hinitial⟩ := h
  exact ⟨governance, hresolve, hcfg.symm, hinitial.symm⟩

end Resolved

/-! ## Evidence -/

section Evidence

variable {Rest : Type} {pkg : ListPkg Rest} {cfg : Config} {calls : Calls}

/-- **An approval that is found is one**: some log of the window leads to it. -/
theorem approves_of_approvalFromLog {safe : SafePkg Rest} {q : SafeQuery} {db : DB} {expectedData : Bytes}
    {log : LogRow}
    {approval : Approval Rest}
    (hcalldata : safe.approveMachinePathListCalldata q.extensionID q.nonce q.messageHash = .ok expectedData)
    (hlog : log ∈ logRows db.logs (q.logsParams safe))
    (h : approvalFromLog safe q db expectedData log = .ok (some approval)) :
    Approves safe q db.transactions log approval := by
  unfold approvalFromLog at h
  simp only [Except.bind_ok_iff, Except.mapError_ok_iff] at h
  obtain ⟨ethLog, heth, safeNonce, hnonce, found, hfound, h⟩ := h
  obtain rfl := toEthLog_ok heth
  split at h
  · cases h
  next tx =>
  split at h
  · cases h
  next inputs hmatch =>
  split at h
  · cases h
  next hverify =>
    cases h
    unfold execTransactionByHash at hfound
    simp only [Except.bind_ok_iff, Except.pure_ok_iff] at hfound
    obtain ⟨rows, hrows, hfind⟩ := hfound
    rw [db.fetchTransactions_ok hrows] at hfind
    obtain ⟨hmem, hto, -, hblock⟩ := (mem_execTransactions (block_lt_of_mem_logRows hlog)).mp
      (List.mem_of_find?_eq_some hfind)
    have hhash : sameHash safe tx.hash log.transactionHash = true := by simpa using List.find?_some hfind
    obtain ⟨hdec, htarget, hcall, hdata⟩ := matchApproval_eq_some_iff.mp hmatch
    exact ⟨⟨safeNonce, hnonce, rfl⟩, ⟨tx, hmem, hto, hblock, hhash, hdec⟩, htarget, hcall, hdata ▸ hcalldata, hverify⟩

theorem mem_of_firstApproval {safe : SafePkg Rest} {q : SafeQuery} {db : DB} {expectedData : Bytes} {logs : List LogRow}
    {approval : Approval Rest} (h : firstApproval safe q db expectedData logs = .ok (some approval)) :
    ∃ log ∈ logs, approvalFromLog safe q db expectedData log = .ok (some approval) := by
  induction logs with
  | nil => cases h
  | cons log logs ih =>
    unfold firstApproval at h
    split at h
    · cases h
    next hfound =>
      cases h
      exact ⟨log, List.mem_cons_self, hfound⟩
    next =>
      obtain ⟨l, hl, hfound⟩ := ih h
      exact ⟨l, List.mem_cons_of_mem _ hl, hfound⟩

theorem approves_of_collectSafeApproval {safe : SafePkg Rest} {q : SafeQuery} {db : DB} {approval : Approval Rest}
    (h : collectSafeApproval safe q db = .ok (some approval)) :
    ∃ log ∈ db.logs, Approves safe q db.transactions log approval := by
  unfold collectSafeApproval at h
  simp only [Except.bind_ok_iff, Except.mapError_ok_iff] at h
  obtain ⟨expectedData, hcalldata, logs, hlogs, h⟩ := h
  obtain ⟨log, hlog, hfound⟩ := mem_of_firstApproval h
  rw [db.fetchLogs_ok hlogs] at hlog
  exact ⟨log, (Indexer.mem_logRows.mp hlog).1, approves_of_approvalFromLog hcalldata hlog hfound⟩

/-- The signatures are of distinct signers, each from a transaction that
endorses the list. -/
def Signed (pkg : SignPkg) (q : Query) (transactions : List TxRow) (signatures : List Bytes) : Prop :=
  ∃ signers : List Address, signers.Nodup ∧
    List.Forall₂ (fun a sig => ∃ tx ∈ transactions, Endorses pkg q tx a sig) signers signatures

theorem signed_of_collectSignatures {sign : SignPkg} {q : Query} {db : DB} {sigs : List Bytes}
    (h : collectSignatures sign q db = .ok sigs) : Signed sign q db.transactions sigs := by
  obtain ⟨rows, hrows, -⟩ := Except.bind_ok_iff.mp h
  rw [collectSignatures_eq hrows] at h
  cases h
  refine ⟨(endorsements sign q db.transactions).map Prod.fst, Scan.nodup_map_firsts, ?_⟩
  rw [List.forall₂_map_left_iff, List.forall₂_map_right_iff, List.forall₂_same]
  intro e he
  obtain ⟨tx, htx, hendorses⟩ := List.mem_filterMap.mp (Scan.mem_of_mem_firsts he)
  exact ⟨tx, htx, endorsement_eq_some_iff.mp hendorses⟩

/-- The request is for the list of the window: it has the list's paths, and
evidence for their hash. `transactions` and `logs` are those on chain. -/
structure Backed (pkg : ListPkg Rest) (cfg : Config) (transactions : List TxRow) (logs : List LogRow)
    (indexed : List Log)
    (request : SetMachinePathListRequest Rest) (hash : Hash) (fromBlock toBlock : Int64) : Prop where
  paths : ∀ p ∈ request.paths, ∃ log ∈ indexed,
    AddedIn pkg.abi cfg.managerAddress cfg.extensionID request.nonce p log
  hashed : ∃ dataHash, pkg.machinePathListDataHash cfg.extensionID request.nonce request.paths = .ok dataHash ∧
    pkg.payloadHash cfg.chainID dataHash = .ok hash
  signatures : Signed pkg.sign
    ⟨cfg.managerAddress, cfg.extensionID, request.nonce, hash, fromBlock, toBlock⟩ transactions
    request.signatures
  approval : ∀ approval, request.safeApproval = some approval → cfg.governance.safe ≠ 0 ∧ ∃ log ∈ logs,
    Approves pkg.safe ⟨cfg.governance, cfg.managerAddress, cfg.extensionID, request.nonce, hash, cfg.chainID, fromBlock,
      toBlock⟩ transactions log approval
  evidence : request.signatures ≠ [] ∨ request.safeApproval ≠ none

variable {transactions transactions' : List TxRow} {logs logs' : List LogRow} {indexed indexed' : List Log}

theorem Backed.mono {request : SetMachinePathListRequest Rest} {hash : Hash} {fromBlock toBlock : Int64}
    (h : Backed pkg cfg transactions logs indexed request hash fromBlock toBlock) (htx : transactions ⊆ transactions')
    (hlogs : logs ⊆ logs') (hindexed : indexed ⊆ indexed') :
    Backed pkg cfg transactions' logs' indexed' request hash fromBlock toBlock where
  paths p hp := by
    obtain ⟨log, hlog, hadded⟩ := h.paths p hp
    exact ⟨log, hindexed hlog, hadded⟩
  hashed := h.hashed
  signatures := by
    obtain ⟨signers, hnodup, hall⟩ := h.signatures
    refine ⟨signers, hnodup, hall.imp ?_⟩
    rintro a sig ⟨tx, hmem, hendorses⟩
    exact ⟨tx, htx hmem, hendorses⟩
  approval approval happroval := by
    obtain ⟨hsafe, log, hlog, happroves⟩ := h.approval approval happroval
    obtain ⟨tx, hmem, hcall⟩ := happroves.transaction
    exact ⟨hsafe, log, hlogs hlog, { happroves with transaction := ⟨tx, htx hmem, hcall⟩ }⟩
  evidence := h.evidence

/-- The action carries a request that is backed. -/
def Carries (pkg : ListPkg Rest) (cfg : Config) (transactions : List TxRow) (logs : List LogRow) (indexed : List Log)
    (nonce : UInt64) (action : Action) : Prop :=
  ∃ request msg hash fromBlock toBlock, request.nonce = nonce ∧ pkg.marshalRequest request = .ok msg ∧
    pkg.marshalInstruction msg = .ok action.data.message ∧
    Backed pkg cfg transactions logs indexed request hash fromBlock toBlock

theorem Carries.mono {nonce : UInt64} {action : Action} (h : Carries pkg cfg transactions logs indexed nonce action)
    (htx : transactions ⊆ transactions') (hlogs : logs ⊆ logs') (hindexed : indexed ⊆ indexed') :
    Carries pkg cfg transactions' logs' indexed' nonce action := by
  obtain ⟨request, msg, hash, fromBlock, toBlock, hnonce, hmsg, hmessage, hbacked⟩ := h
  exact ⟨request, msg, hash, fromBlock, toBlock, hnonce, hmsg, hmessage, hbacked.mono htx hlogs hindexed⟩

/-- **An action is built on evidence** of what the poll read. -/
theorem setMachinePathListAction_carries {nonce toBlock : UInt64} {action : Action} (hext : cfg.extensionID ≠ 0)
    (hnonce : 1 ≤ nonce) (h : setMachinePathListAction pkg cfg calls nonce toBlock = .ok action) :
    Carries pkg cfg calls.txs.transactions calls.txs.logs calls.db.logs nonce action := by
  unfold setMachinePathListAction at h
  simp only [Except.bind_ok_iff, Except.mapError_ok_iff] at h
  obtain ⟨⟨paths, fromBlock⟩, hpaths, dataHash, hdata, hash, hhash, sigs, hsigs, approval, happroval, h⟩ := h
  split at h
  · cases h
  next hevidence =>
  obtain ⟨msg, hmsg, h⟩ := Except.bind_ok_iff.mp h
  rw [Except.mapError_ok_iff] at hmsg h
  refine ⟨_, msg, hash, fromBlock.toInt64 - 1, toBlock.toInt64, rfl, hmsg, Queue.directInstructionToAction_message h,
    pathsOwn_of_ne hnonce hext pkg.sort calls.db paths fromBlock hpaths, ⟨dataHash, hdata, hhash⟩,
    signed_of_collectSignatures hsigs, ?_, ?_⟩
  · rintro found rfl
    unfold safeEvidence at happroval
    split at happroval
    next hsafe => exact ⟨hsafe, approves_of_collectSafeApproval (Except.mapError_ok_iff.mp happroval)⟩
    next => cases happroval
  · by_contra hnone
    rw [not_or, not_not, not_not] at hnone
    exact hevidence ⟨List.isEmpty_iff.mpr hnone.1, Option.isNone_iff_eq_none.mpr hnone.2⟩

theorem action_of_build {lastNonce nonce : UInt64} {action : Action}
    (h : build pkg cfg calls lastNonce = .ok (nonce, action)) :
    ∃ toBlock, setMachinePathListAction pkg cfg calls nonce toBlock = .ok action := by
  unfold build at h
  split at h
  · cases h
  · cases h
  next toBlock _ =>
  split at h
  · cases h
  · cases h
  next haction =>
    cases h
    exact ⟨toBlock, haction⟩

end Evidence

/-! ## Runs -/

section Runs

variable {Rest : Type} {pkg : ListPkg Rest} {cfg : Config} {initialNonce : UInt64} {s s' : State}
  {transactions : List TxRow} {logs : List LogRow}

/-- A poll reads transactions and approvals that are on chain. -/
def OnChain (transactions : List TxRow) (logs : List LogRow) : State → Event → Prop
  | _, .poll calls _ => calls.txs.transactions ⊆ transactions ∧ calls.txs.logs ⊆ logs
  | _, .indexed _ => True

/-- Everything that was handed to the queue is above the first nonce, and
backed. -/
def AllBacked (pkg : ListPkg Rest) (cfg : Config) (initialNonce : UInt64) (transactions : List TxRow)
    (logs : List LogRow)
    (s : State) : Prop :=
  initialNonce ≤ s.lastNonce ∧ ∀ x ∈ s.submitted, initialNonce < x.1 ∧
    Carries pkg cfg transactions logs s.logs x.1 x.2

theorem AllBacked.step (hext : cfg.extensionID ≠ 0) (h : AllBacked pkg cfg initialNonce transactions logs s) {e : Event}
    (hchain : OnChain transactions logs s e) (hs : Step pkg cfg s e s') :
    AllBacked pkg cfg initialNonce transactions logs s' := by
  refine ⟨UInt64.le_trans h.1 hs.lastNonce_le, fun x hx => ?_⟩
  cases hs with
  | @indexed log =>
    obtain ⟨hnonce, hcarries⟩ := h.2 x hx
    exact ⟨hnonce, hcarries.mono (List.Subset.refl _) (List.Subset.refl _) (List.subset_cons_self _ _)⟩
  | @polled calls answered hlogs =>
    rcases List.mem_append.mp hx with hold | hnew
    · exact h.2 x hold
    · obtain ⟨nonce, action⟩ := x
      have hbuild : build pkg cfg calls s.lastNonce = .ok (nonce, action) := by
        rw [Option.mem_toList, Except.toOption_eq_some_iff] at hnew
        exact hnew
      have habove : s.lastNonce < nonce := (build_ok hbuild).1
      have hone : 1 ≤ nonce := by
        rw [UInt64.lt_iff_toNat_lt] at habove
        rw [UInt64.le_iff_toNat_le]
        exact Nat.succ_le_of_lt (Nat.zero_lt_of_lt habove)
      obtain ⟨toBlock, haction⟩ := action_of_build hbuild
      have hcarries := setMachinePathListAction_carries hext hone haction
      exact ⟨UInt64.lt_of_le_of_lt h.1 habove, hcarries.mono hchain.1 hchain.2 (hlogs ▸ List.Subset.refl _)⟩

theorem allBacked (hext : cfg.extensionID ≠ 0)
    (h : Lts.Reach (system pkg cfg initialNonce) (OnChain transactions logs) s) :
    AllBacked pkg cfg initialNonce transactions logs s := by
  refine h.invariant (AllBacked pkg cfg initialNonce transactions logs) ?_ ?_
  · rintro s rfl
    exact ⟨UInt64.le_refl _, fun x hx => (by cases hx)⟩
  · intro s e s' _ ih hchain hs
    exact ih.step hext hchain (step_inv hs)

end Runs

/-- **A list reaches the node with evidence it accepts.** Let the configuration
pass its checks, let the hash of governances tell the node's from others, and
let the extension have an ID other than zero. In every run of the service from
its start, whatever is indexed and whichever call fails: each action that is
handed to the queue is for a nonce above the one the node reported, has only
paths of the extension's list with that nonce, and has signatures of the list's
hash by distinct signers, each from a successful transaction on chain, or an
approval of the Safe; and an approval verifies for the node's own Safe, owners
and threshold, which is positive and at most the number of owners. -/
theorem lists_authorised {Rest : Type} {pkg : ListPkg Rest} {gov : GovernancePkg} {g node : GovernanceConfig}
    {machinePathManager : Address} {chainID : UInt64} {info : NodeInfo} {cfg : Config}
    {initialNonce : UInt64} {s : State}
    {transactions : List TxRow} {logs : List LogRow} (hcheck : checkGovernance g machinePathManager = .ok ())
    (hstart : startService gov g machinePathManager chainID info = .ok (some (cfg, initialNonce)))
    (hnode : ∀ g', gov.hash g' = .ok info.governanceHash →
      g'.safe = node.safe ∧ g'.signers = node.signers ∧ g'.threshold = node.threshold)
    (hext : info.extensionID ≠ 0)
    (h : Lts.Reach (system pkg cfg initialNonce) (OnChain transactions logs) s) :
    ∀ x ∈ s.submitted, info.machinePathListNonce < x.1 ∧ ∃ request msg hash fromBlock toBlock,
      request.nonce = x.1 ∧ pkg.marshalRequest request = .ok msg ∧ pkg.marshalInstruction msg = .ok x.2.data.message ∧
      Backed pkg cfg transactions logs s.logs request hash fromBlock toBlock ∧
      ∀ approval, request.safeApproval = some approval →
        pkg.safe.verify approval chainID node.safe node.signers node.threshold = .ok () ∧
        0 < node.threshold ∧ node.threshold ≤ .ofNat node.signers.length := by
  obtain ⟨governance, hresolve, rfl, rfl⟩ := startService_ok hstart
  intro x hx
  obtain ⟨habove, request, msg, hash, fromBlock, toBlock, hnonce, hmsg, hmessage, hbacked⟩ := (allBacked hext h).2 x hx
  refine ⟨habove, request, msg, hash, fromBlock, toBlock, hnonce, hmsg, hmessage, hbacked, ?_⟩
  intro approval happroval
  obtain ⟨hsafe, log, -, happroves⟩ := hbacked.approval approval happroval
  obtain ⟨hhash, hgovernance⟩ := resolveGovernance_safe hresolve hsafe
  obtain ⟨hsame, hsigners, hthreshold⟩ := hnode g hhash
  have hverifies := happroves.verifies
  dsimp only at hsafe hverifies
  rw [hgovernance] at hsafe hverifies
  rw [hsame, hsigners, hthreshold] at hverifies
  obtain ⟨⟨⟩, hvalid, -⟩ := Except.bind_ok_iff.mp hcheck
  obtain ⟨hpos, hle, -⟩ := validate_safe hvalid hsafe
  rw [hsigners, hthreshold] at hle
  exact ⟨hverifies, hthreshold ▸ hpos, hle⟩

/-- The Safe 8 with the owners 1 and 2, who both have to sign. -/
def ownersOneTwo : GovernanceConfig := ⟨[1, 2], 2, 8, 7⟩

/-- A hash that tells this governance from all others. -/
def GovernancePkg.pinned : GovernancePkg where
  governanceHash _ _ := .ok 5
  governanceHashSafe teeManager safe signers threshold :=
    if (⟨signers, threshold, safe, teeManager⟩ : GovernanceConfig) = ownersOneTwo then .ok 6 else .ok 5

/-- Extension 2, under the Safe. -/
def extensionTwoSafe : Config := ⟨9, ⟨8, [1, 2], 2⟩, 2, 14⟩

/-- Nobody has signed list 3 directly, but the Safe has approved it. -/
def callsForSafe : Calls :=
  { callsForThree with txs := .of [approvedLog 13 42 "0xCC"] [execRow 13 '0' '2' "cc"] }

theorem lists_authorised_bySafe :
    ∃ s : State, ∃ x ∈ s.submitted, x.1 = 3 ∧ ∃ (request : SetMachinePathListRequest Unit) (approval : Approval Unit),
      request.nonce = 3 ∧ request.safeApproval = some approval ∧
      SafePkg.bytewise.verify approval 14 8 [1, 2] 2 = .ok () := by
  have hrun : ((system .bytewise extensionTwoSafe 0).run ⟨[], [], 0, []⟩ [.indexed pathOfThree,
      .indexed (listSigned 3 15), .poll callsForSafe [accepted]]).any fun s =>
      decide (s.submitted.map Prod.fst = [3]) := by
    decide +kernel
  obtain ⟨s, hs, hend⟩ := (Option.any_eq_true _ _).mp hrun
  have hchain : ∀ e ∈ [Event.indexed pathOfThree, .indexed (listSigned 3 15), .poll callsForSafe [accepted]],
      ∀ s, OnChain [execRow 13 '0' '2' "cc"] [approvedLog 13 42 "0xCC"] s e := by
    intro e he s
    simp only [List.mem_cons, List.not_mem_nil, or_false] at he
    rcases he with rfl | rfl | rfl
    · trivial
    · trivial
    · exact ⟨List.Subset.refl _, List.Subset.refl _⟩
  have hnode : ∀ g', GovernancePkg.pinned.hash g' = .ok 6 → g'.safe = ownersOneTwo.safe ∧
      g'.signers = ownersOneTwo.signers ∧ g'.threshold = ownersOneTwo.threshold := by
    intro g' hg
    simp only [GovernancePkg.hash, GovernancePkg.pinned] at hg
    split at hg
    · split at hg
      next heq => rw [← heq]; exact ⟨rfl, rfl, rfl⟩
      · cases hg
    · cases hg
  have hreach : Lts.Reach (system .bytewise extensionTwoSafe 0)
      (OnChain [execRow 13 '0' '2' "cc"] [approvedLog 13 42 "0xCC"]) s := .of_run (.init rfl) hchain hs
  obtain ⟨x, hx, hthree⟩ := List.mem_map.mp
    ((of_decide_eq_true hend : s.submitted.map Prod.fst = [3]) ▸ List.mem_singleton_self 3)
  obtain ⟨-, request, _, _, _, _, hnonce, -, -, hbacked, happrovals⟩ :=
    @lists_authorised _ _ .pinned ownersOneTwo ownersOneTwo 9 14 ⟨6, 2, 0⟩ _ _ _ _ _ rfl rfl hnode
      (by decide) hreach x hx
  -- the one transaction calls the Safe, so it is no signature of the list
  have hnone : request.signatures = [] := by
    obtain ⟨signers, -, hall⟩ := hbacked.signatures
    generalize request.signatures = sigs at hall ⊢
    cases hall with
    | nil => rfl
    | cons hfirst =>
      obtain ⟨tx, htx, hendorses⟩ := hfirst
      obtain rfl := List.mem_singleton.mp htx
      have hcalls : (execRow 13 '0' '2' "cc").calls 9 1 = true := hendorses.calls
      exact absurd hcalls (by decide +kernel)
  obtain ⟨approval, happroval⟩ := Option.ne_none_iff_exists'.mp (hbacked.evidence.resolve_left (not_not.mpr hnone))
  exact ⟨s, x, hx, hthree, request, approval, hnonce.trans hthree, happroval, (happrovals approval happroval).1⟩

end TeeProxy.MachinePath
