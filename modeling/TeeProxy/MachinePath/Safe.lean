/-
The Safe approval of a machine path list (`pkg/machinepath/safe.go`).

An approval is found through the logs of the manager's
MachinePathListApproved event: the log names the Safe nonce and the
transaction, the transaction has the calldata with the owners' signatures.
Other lists and other Safes log the same event, and anyone may call a Safe,
so most of what is found is someone else's; it is passed over, and the first
log that leads to an approval the node would accept is the answer.
-/
import TeeProxy.Indexer
import TeeProxy.Lib.Fallible
import TeeProxy.Lib.Hex

namespace TeeProxy.MachinePath

open Indexer (Log EthLog LogRow LogsParams TxRow TxParams DB logRows txRows)

/-- `safe.ExecTransactionInputs`; `rest` are the fields only `Verify` reads. -/
structure ExecTransactionInputs (Rest : Type) where
  toAddress : Address
  data : Bytes
  operation : UInt8
  rest : Rest
  deriving DecidableEq, Repr

/-- `safe.Approval`. -/
structure Approval (Rest : Type) where
  execTransaction : ExecTransactionInputs Rest
  nonce : UInt64
  deriving DecidableEq, Repr

/-- `types.Governance`. -/
structure Governance where
  safe : Address
  signers : List Address
  threshold : UInt64

/-- `safe.OperationCall`. -/
def operationCall : UInt8 := 0

/-- What the selection calls of other packages. The event is read for its
Safe nonce. `fold` takes a character to the one that stands for it in
`strings.EqualFold`. -/
structure SafePkg (Rest : Type) where
  machinePathListApprovedEventSel : Hash
  parseMachinePathListApproved : EthLog → Except PkgErr UInt32
  approveMachinePathListCalldata : Hash → UInt64 → Hash → Except PkgErr Bytes
  execTransactionSelector : BitVec 32
  decodeExecTransactionCalldata : Bytes → Except PkgErr (ExecTransactionInputs Rest)
  verify : Approval Rest → UInt64 → Address → List Address → UInt64 → Except PkgErr Unit
  fold : Char → Char

/-- The errors of `collectSafeApproval`. -/
inductive SafeErr
  | buildingCalldata (e : PkgErr)
  | fetchingLogs (e : PkgErr)
  | converting (e : PkgErr)
  | parsingApproved (e : PkgErr)
  | fetchingTransactions (e : PkgErr)
  deriving DecidableEq, Repr

/-- The arguments of a selection besides its database. -/
structure SafeQuery where
  gov : Governance
  managerAddress : Address
  extensionID : Hash
  nonce : UInt64
  messageHash : Hash
  chainID : UInt64
  fromBlock : Int64
  toBlock : Int64

/-- `strings.TrimPrefix(s, "0x")`. -/
def trim0x (s : String) : List Char :=
  match s.toList with
  | '0' :: 'x' :: cs => cs
  | cs => cs

section Code

variable {Rest : Type} (pkg : SafePkg Rest) (q : SafeQuery) (db : DB)

/-- Two texts of one hash: with or without `0x`, in any case. -/
def sameHash (a b : String) : Bool := (trim0x a).map pkg.fold = (trim0x b).map pkg.fold

/-- `execTransactionByHash`: the Safe's transaction in the block of the log. -/
def execTransactionByHash (safeAddress : Address) (blockNumber : UInt64) (txHash : String) :
    Except PkgErr (Option TxRow) := do
  let txs ← db.fetchTransactions
    ⟨safeAddress, pkg.execTransactionSelector, blockNumber.toInt64 - 1, blockNumber.toInt64⟩
  pure (txs.find? fun tx => sameHash pkg tx.hash txHash)

/-- `matchApproval`: the transaction calls the manager with the expected data. -/
def matchApproval (input expectedData : Bytes) (managerAddress : Address) : Option (ExecTransactionInputs Rest) :=
  match Hex.decode input with
  | .error _ => none
  | .ok inputB => match pkg.decodeExecTransactionCalldata inputB with
    | .error _ => none
    | .ok inputs =>
      if inputs.toAddress ≠ managerAddress ∨ inputs.operation ≠ operationCall then none
      else if inputs.data ≠ expectedData then none
      else some inputs

/-- `approvalFromLog`; its flag is false where the result is nil. -/
def approvalFromLog (expectedData : Bytes) (log : LogRow) : Except SafeErr (Option (Approval Rest)) := do
  let ethLog ← log.toEthLog.mapError .converting
  let safeNonce ← (pkg.parseMachinePathListApproved ethLog).mapError .parsingApproved
  let tx ← (execTransactionByHash pkg db q.gov.safe log.blockNumber log.transactionHash).mapError .fetchingTransactions
  match tx with
  | none => pure none
  | some tx => match matchApproval pkg tx.input expectedData q.managerAddress with
    | none => pure none
    | some inputs =>
      let approval : Approval Rest := ⟨inputs, safeNonce.toUInt64⟩
      match pkg.verify approval q.chainID q.gov.safe q.gov.signers q.gov.threshold with
      | .error _ => pure none
      | .ok () => pure (some approval)

/-- The loop over the logs. -/
def firstApproval (expectedData : Bytes) : List LogRow → Except SafeErr (Option (Approval Rest))
  | [] => .ok none
  | log :: logs => match approvalFromLog pkg q db expectedData log with
    | .error e => .error e
    | .ok (some approval) => .ok (some approval)
    | .ok none => firstApproval expectedData logs

/-- The query for approvals in the block range. -/
def SafeQuery.logsParams : LogsParams :=
  ⟨q.managerAddress, pkg.machinePathListApprovedEventSel, q.fromBlock, q.toBlock⟩

def collectSafeApproval : Except SafeErr (Option (Approval Rest)) := do
  let expectedData ← (pkg.approveMachinePathListCalldata q.extensionID q.nonce q.messageHash).mapError .buildingCalldata
  let logs ← (db.fetchLogs (q.logsParams pkg)).mapError .fetchingLogs
  firstApproval pkg q db expectedData logs

/-! ## What a log stands for -/

/-- The log was emitted in a transaction to the Safe, in the log's block, which
calls the manager with the list's approval, and the owners' signatures verify
at the nonce of the event: `approval` is that evidence. -/
structure Approves (transactions : List TxRow) (log : LogRow) (approval : Approval Rest) : Prop where
  event : ∃ safeNonce, pkg.parseMachinePathListApproved ⟨log.topics, log.data⟩ = .ok safeNonce ∧
    approval.nonce = safeNonce.toUInt64
  transaction : ∃ tx ∈ transactions, tx.toAddress = q.gov.safe ∧ tx.blockNumber = log.blockNumber ∧
    sameHash pkg tx.hash log.transactionHash = true ∧
    ∃ inputB, Hex.decode tx.input = .ok inputB ∧
      pkg.decodeExecTransactionCalldata inputB = .ok approval.execTransaction
  target : approval.execTransaction.toAddress = q.managerAddress
  call : approval.execTransaction.operation = operationCall
  calldata : pkg.approveMachinePathListCalldata q.extensionID q.nonce q.messageHash = .ok approval.execTransaction.data
  verifies : pkg.verify approval q.chainID q.gov.safe q.gov.signers q.gov.threshold = .ok ()

/-- The queries are answered, the logs of the window are well formed, a
transaction has a hash of its own, and the indexer's selector of a
transaction that decodes as an execTransaction is that of execTransaction. -/
structure WellIndexed : Prop where
  logs_answered : ∃ rows, db.fetchLogs (q.logsParams pkg) = .ok rows
  transactions_answered : ∀ params, ∃ rows, db.fetchTransactions params = .ok rows
  wellFormed : ∀ log ∈ logRows db.logs (q.logsParams pkg), log.corrupt = none ∧
    ∃ safeNonce, pkg.parseMachinePathListApproved ⟨log.topics, log.data⟩ = .ok safeNonce
  hashes : ∀ tx ∈ db.transactions, ∀ tx' ∈ db.transactions, sameHash pkg tx.hash tx'.hash = true → tx = tx'
  selectors : ∀ tx ∈ db.transactions, ∀ inputB inputs, Hex.decode tx.input = .ok inputB →
    pkg.decodeExecTransactionCalldata inputB = .ok inputs → tx.functionSig = pkg.execTransactionSelector

/-- Logs with one more that stands for no approval. -/
inductive LogInserted (transactions : List TxRow) : List LogRow → List LogRow → Prop
  | insert {earlier later : List LogRow} {log : LogRow} (h : ∀ approval, ¬ Approves pkg q transactions log approval) :
      LogInserted transactions (earlier ++ later) (earlier ++ log :: later)

end Code

section Selection

variable {Rest : Type} {pkg : SafePkg Rest} {q : SafeQuery} {db db' : DB} {log : LogRow} {approval : Approval Rest}
  {expectedData : Bytes}

theorem matchApproval_eq_some_iff {input : Bytes} {managerAddress : Address} {inputs : ExecTransactionInputs Rest} :
    matchApproval pkg input expectedData managerAddress = some inputs ↔
      (∃ inputB, Hex.decode input = .ok inputB ∧ pkg.decodeExecTransactionCalldata inputB = .ok inputs) ∧
        inputs.toAddress = managerAddress ∧ inputs.operation = operationCall ∧ inputs.data = expectedData := by
  unfold matchApproval
  cases hdec : Hex.decode input with
  | error e => simp
  | ok inputB =>
    cases hexec : pkg.decodeExecTransactionCalldata inputB with
    | error e => simp [hexec]
    | ok inputs' =>
      simp only [hexec, Except.ok.injEq, exists_eq_left', Option.ite_none_left_eq_some,
        not_or, not_not, Option.some.injEq]
      constructor
      · rintro ⟨⟨hto, hop⟩, hdata, rfl⟩
        exact ⟨rfl, hto, hop, hdata⟩
      · rintro ⟨rfl, hto, hop, hdata⟩
        exact ⟨⟨hto, hop⟩, hdata, rfl⟩

/-- The query for a log's transaction reads the log's block. -/
theorem mem_execTransactions {tx : TxRow} {blockNumber : UInt64} {safeAddress : Address}
    (hb : blockNumber.toNat < 2 ^ 63) :
    tx ∈ txRows db.transactions
        ⟨safeAddress, pkg.execTransactionSelector, blockNumber.toInt64 - 1, blockNumber.toInt64⟩ ↔
      tx ∈ db.transactions ∧ tx.toAddress = safeAddress ∧ tx.functionSig = pkg.execTransactionSelector ∧
        tx.blockNumber = blockNumber := by
  rw [Indexer.mem_txRows]
  dsimp only
  rw [Indexer.toInt_toInt64_pred hb, Indexer.toInt_toInt64_of_lt hb]
  simp only [Indexer.Transaction.calls, Indexer.Transaction.block, Bool.and_eq_true, decide_eq_true_eq, and_assoc,
    ← UInt64.toNat_inj]
  refine and_congr_right fun _ => and_congr_right fun _ => and_congr_right fun _ => ?_
  omega

theorem sameHash_trans {a b c : String} (h : sameHash pkg a c = true) (h' : sameHash pkg b c = true) :
    sameHash pkg a b = true := by
  simp only [sameHash, decide_eq_true_eq] at h h' ⊢
  exact h.trans h'.symm

/-- A log's transaction is found exactly if it is an execTransaction to the
Safe in the log's block. -/
theorem WellIndexed.execTransactionByHash (h : WellIndexed pkg q db) (safeAddress : Address) {blockNumber : UInt64}
    (hb : blockNumber.toNat < 2 ^ 63) (txHash : String) :
    ∃ found, MachinePath.execTransactionByHash pkg db safeAddress blockNumber txHash = .ok found ∧
      ∀ tx, found = some tx ↔ (tx ∈ db.transactions ∧ tx.toAddress = safeAddress ∧
        tx.functionSig = pkg.execTransactionSelector ∧ tx.blockNumber = blockNumber) ∧
        sameHash pkg tx.hash txHash = true := by
  obtain ⟨rows, hrows⟩ := h.transactions_answered
    ⟨safeAddress, pkg.execTransactionSelector, blockNumber.toInt64 - 1, blockNumber.toInt64⟩
  refine ⟨rows.find? fun tx => sameHash pkg tx.hash txHash, ?_, fun tx => ?_⟩
  · unfold MachinePath.execTransactionByHash
    rw [hrows]
    rfl
  rw [db.fetchTransactions_ok hrows, ← mem_execTransactions hb]
  constructor
  · intro hfind
    exact ⟨List.mem_of_find?_eq_some hfind, List.find?_some (p := fun tx : TxRow => sameHash pkg tx.hash txHash) hfind⟩
  · rintro ⟨hmem, hhash⟩
    obtain ⟨tx', hfind⟩ := Option.isSome_iff_exists.mp
      ((List.find?_isSome (p := fun tx : TxRow => sameHash pkg tx.hash txHash)).mpr ⟨tx, hmem, hhash⟩)
    -- hashes are distinct, so the first row with the hash is the transaction
    have hmem' := ((mem_execTransactions hb).mp (List.mem_of_find?_eq_some hfind)).1
    have hhash' := List.find?_some (p := fun tx : TxRow => sameHash pkg tx.hash txHash) hfind
    rw [hfind, h.hashes tx' hmem' tx ((mem_execTransactions hb).mp hmem).1 (sameHash_trans hhash' hhash)]

theorem block_lt_of_mem_logRows {params : LogsParams} {logs : List LogRow} (h : log ∈ logRows logs params) :
    log.blockNumber.toNat < 2 ^ 63 := by
  have hblock := (Indexer.mem_logRows.mp h).2.2.2.2
  have hlt := params.toBlock.toInt_lt
  unfold LogRow.block at hblock
  omega

/-- What a log stands for, by the steps of the code: its transaction is the one
that is found, calls what is expected, and verifies at the event's nonce. -/
theorem WellIndexed.approves_iff (h : WellIndexed pkg q db)
    (hcalldata : pkg.approveMachinePathListCalldata q.extensionID q.nonce q.messageHash = .ok expectedData)
    {safeNonce : UInt32} (hparse : pkg.parseMachinePathListApproved ⟨log.topics, log.data⟩ = .ok safeNonce)
    {found : Option TxRow}
    (hfound : ∀ tx, found = some tx ↔ (tx ∈ db.transactions ∧ tx.toAddress = q.gov.safe ∧
      tx.functionSig = pkg.execTransactionSelector ∧ tx.blockNumber = log.blockNumber) ∧
      sameHash pkg tx.hash log.transactionHash = true) :
    Approves pkg q db.transactions log approval ↔
      ∃ tx inputs, found = some tx ∧ matchApproval pkg tx.input expectedData q.managerAddress = some inputs ∧
        pkg.verify ⟨inputs, safeNonce.toUInt64⟩ q.chainID q.gov.safe q.gov.signers q.gov.threshold = .ok () ∧
        approval = ⟨inputs, safeNonce.toUInt64⟩ := by
  constructor
  · intro ha
    obtain ⟨tx, hmem, hto, hblock, hhash, inputB, hdec, hinputs⟩ := ha.transaction
    obtain ⟨nonce, hnonce, heq⟩ := ha.event
    obtain rfl := Except.ok.inj (hnonce.symm.trans hparse)
    have hmatch := matchApproval_eq_some_iff.mpr ⟨⟨inputB, hdec, hinputs⟩, ha.target, ha.call,
      Except.ok.inj (ha.calldata.symm.trans hcalldata)⟩
    have hverify := ha.verifies
    obtain ⟨inputs, n⟩ := approval
    obtain rfl : n = nonce.toUInt64 := heq
    have htx := (hfound tx).mpr ⟨⟨hmem, hto, h.selectors tx hmem _ _ hdec hinputs, hblock⟩, hhash⟩
    exact ⟨tx, inputs, htx, hmatch, hverify, rfl⟩
  · rintro ⟨tx, inputs, htx, hmatch, hverify, rfl⟩
    obtain ⟨⟨hmem, hto, -, hblock⟩, hhash⟩ := (hfound tx).mp htx
    obtain ⟨hdec, htarget, hcall, hdata⟩ := matchApproval_eq_some_iff.mp hmatch
    exact ⟨⟨safeNonce, hparse, rfl⟩, ⟨tx, hmem, hto, hblock, hhash, hdec⟩, htarget, hcall, hdata ▸ hcalldata, hverify⟩

/-- **One log** resolves to the approval it stands for. -/
theorem WellIndexed.approvalFromLog (h : WellIndexed pkg q db)
    (hcalldata : pkg.approveMachinePathListCalldata q.extensionID q.nonce q.messageHash = .ok expectedData)
    (hlog : log ∈ logRows db.logs (q.logsParams pkg)) :
    ∃ found, MachinePath.approvalFromLog pkg q db expectedData log = .ok found ∧
      ∀ approval, found = some approval ↔ Approves pkg q db.transactions log approval := by
  obtain ⟨hcorrupt, safeNonce, hparse⟩ := h.wellFormed log hlog
  obtain ⟨tx, hexec, htx⟩ := h.execTransactionByHash q.gov.safe (block_lt_of_mem_logRows hlog) log.transactionHash
  have hlogOK : log.toEthLog = .ok ⟨log.topics, log.data⟩ := by rw [Log.toEthLog, hcorrupt]
  simp only [h.approves_iff hcalldata hparse htx]
  unfold MachinePath.approvalFromLog
  rw [hlogOK]
  simp only [Except.mapError, bind, Except.bind, hparse, hexec]
  cases tx with
  | none => exact ⟨none, rfl, by simp⟩
  | some row =>
    dsimp only
    cases hmatch : MachinePath.matchApproval pkg row.input expectedData q.managerAddress with
    | none => exact ⟨none, rfl, by simp [hmatch]⟩
    | some inputs =>
      dsimp only
      cases hverify : pkg.verify ⟨inputs, safeNonce.toUInt64⟩ q.chainID q.gov.safe q.gov.signers q.gov.threshold with
      | error e => exact ⟨none, rfl, by simp [hmatch, hverify]⟩
      | ok u => exact ⟨some ⟨inputs, safeNonce.toUInt64⟩, rfl, by simp [hmatch, hverify, eq_comm]⟩

theorem firstApproval_eq {f : LogRow → Option (Approval Rest)} {logs : List LogRow}
    (h : ∀ log ∈ logs, approvalFromLog pkg q db expectedData log = .ok (f log)) :
    firstApproval pkg q db expectedData logs = .ok (logs.findSome? f) := by
  induction logs with
  | nil => rfl
  | cons log logs ih =>
    rw [firstApproval, h log List.mem_cons_self, List.findSome?_cons]
    cases f log with
    | none => exact ih fun l hl => h l (List.mem_cons_of_mem _ hl)
    | some approval => rfl

/-- What a log stands for, where the log can be read. -/
def resolve (pkg : SafePkg Rest) (q : SafeQuery) (db : DB) (expectedData : Bytes) (log : LogRow) :
    Option (Approval Rest) :=
  (approvalFromLog pkg q db expectedData log).toOption.join

theorem WellIndexed.resolve (h : WellIndexed pkg q db)
    (hcalldata : pkg.approveMachinePathListCalldata q.extensionID q.nonce q.messageHash = .ok expectedData)
    (hlog : log ∈ logRows db.logs (q.logsParams pkg)) :
    MachinePath.approvalFromLog pkg q db expectedData log = .ok (MachinePath.resolve pkg q db expectedData log) ∧
      ∀ approval, MachinePath.resolve pkg q db expectedData log = some approval ↔
        Approves pkg q db.transactions log approval := by
  obtain ⟨found, hok, hiff⟩ := h.approvalFromLog hcalldata hlog
  have hres : MachinePath.resolve pkg q db expectedData log = found := by
    rw [MachinePath.resolve, hok]
    rfl
  exact ⟨by rw [hok, hres], by rw [hres]; exact hiff⟩

theorem WellIndexed.collectSafeApproval (h : WellIndexed pkg q db)
    (hcalldata : pkg.approveMachinePathListCalldata q.extensionID q.nonce q.messageHash = .ok expectedData) :
    MachinePath.collectSafeApproval pkg q db =
      .ok ((logRows db.logs (q.logsParams pkg)).findSome? (MachinePath.resolve pkg q db expectedData)) := by
  obtain ⟨rows, hrows⟩ := h.logs_answered
  obtain rfl := db.fetchLogs_ok hrows
  unfold MachinePath.collectSafeApproval
  rw [hcalldata, hrows]
  exact firstApproval_eq fun log hlog => (h.resolve hcalldata hlog).1

/-- Without the expected calldata there is nothing to compare with. -/
theorem collectSafeApproval_error {e : PkgErr}
    (he : pkg.approveMachinePathListCalldata q.extensionID q.nonce q.messageHash = .error e) :
    collectSafeApproval pkg q db = .error (.buildingCalldata e) := by
  unfold collectSafeApproval
  rw [he]
  rfl

theorem findSome?_of_inserted {f : LogRow → Option (Approval Rest)} {transactions : List TxRow}
    {params : LogsParams} {logs logs' : List LogRow}
    (h : Relation.ReflTransGen (LogInserted pkg q transactions) logs logs')
    (hf : ∀ log ∈ logRows logs' params, ∀ approval, f log = some approval → Approves pkg q transactions log approval) :
    (logRows logs' params).findSome? f = (logRows logs params).findSome? f := by
  induction h with
  | refl => rfl
  | tail _ hlast ih =>
    obtain @⟨earlier, later, log, hno⟩ := hlast
    have hsplit : logRows (earlier ++ log :: later) params =
        logRows earlier params ++ (logRows [log] params ++ logRows later params) := by
      rw [← Indexer.logRows_append, ← Indexer.logRows_append]
      rfl
    have hnone : (logRows [log] params).findSome? f = none := by
      rw [List.findSome?_eq_none_iff]
      intro l hl
      obtain rfl := List.mem_singleton.mp (Indexer.mem_logRows.mp hl).1
      refine Option.eq_none_iff_forall_ne_some.mpr fun approval ha => hno approval (hf l ?_ approval ha)
      rw [hsplit]
      exact List.mem_append_right _ (List.mem_append_left _ hl)
    rw [hsplit, List.findSome?_append, List.findSome?_append, hnone, Option.none_or, ← List.findSome?_append,
      ← Indexer.logRows_append]
    refine ih fun l hl => hf l ?_
    rw [hsplit]
    rw [Indexer.logRows_append] at hl
    rcases List.mem_append.mp hl with hl | hl
    · exact List.mem_append_left _ hl
    · exact List.mem_append_right _ (List.mem_append_right _ hl)

/-- The queries of two databases with the same transactions. -/
theorem WellIndexed.resolve_congr (h : WellIndexed pkg q db) (h' : WellIndexed pkg q db')
    (htx : db'.transactions = db.transactions) :
    MachinePath.resolve pkg q db' expectedData = MachinePath.resolve pkg q db expectedData := by
  have hfetch : db'.fetchTransactions = db.fetchTransactions := by
    funext params
    obtain ⟨rows, hrows⟩ := h.transactions_answered params
    obtain ⟨rows', hrows'⟩ := h'.transactions_answered params
    rw [hrows, hrows', db.fetchTransactions_ok hrows, db'.fetchTransactions_ok hrows', htx]
  funext log
  unfold MachinePath.resolve MachinePath.approvalFromLog MachinePath.execTransactionByHash
  rw [hfetch]

/-- **The selection is sound and complete.** Over well-indexed logs and
transactions, what is returned is the approval of the first log of the window
that stands for one; one is returned if there is such a log, and otherwise
none, without an error; and logs that stand for no approval, in any number and
wherever they are inserted, change nothing. -/
theorem approval_selected (pkg : SafePkg Rest) (q : SafeQuery) (db : DB) (h : WellIndexed pkg q db) :
    (∀ approval, collectSafeApproval pkg q db = .ok (some approval) ↔
      ∃ before log after, logRows db.logs (q.logsParams pkg) = before ++ log :: after ∧
        Approves pkg q db.transactions log approval ∧ ∀ l ∈ before, ∀ x, ¬ Approves pkg q db.transactions l x) ∧
    ((∃ approval, collectSafeApproval pkg q db = .ok (some approval)) ↔
      ∃ log ∈ logRows db.logs (q.logsParams pkg), ∃ approval, Approves pkg q db.transactions log approval) ∧
    (∀ expectedData, pkg.approveMachinePathListCalldata q.extensionID q.nonce q.messageHash = .ok expectedData →
      (∀ log ∈ logRows db.logs (q.logsParams pkg), ∀ x, ¬ Approves pkg q db.transactions log x) →
      collectSafeApproval pkg q db = .ok none) ∧
    ∀ db' : DB, WellIndexed pkg q db' → db'.transactions = db.transactions →
      Relation.ReflTransGen (LogInserted pkg q db.transactions) db.logs db'.logs →
      collectSafeApproval pkg q db' = collectSafeApproval pkg q db := by
  cases hcalldata : pkg.approveMachinePathListCalldata q.extensionID q.nonce q.messageHash with
  | error e =>
    have hnone : ∀ l x, ¬ Approves pkg q db.transactions l x := fun l x hx => by
      have hc := hx.calldata
      rw [hcalldata] at hc
      cases hc
    refine ⟨fun approval => ?_, ?_, fun _ hc => (by cases hc), fun db' _ _ _ => ?_⟩
    · rw [collectSafeApproval_error hcalldata]
      exact ⟨fun hok => (by cases hok), fun ⟨_, _, _, _, ha, _⟩ => (hnone _ _ ha).elim⟩
    · rw [collectSafeApproval_error hcalldata]
      exact ⟨fun ⟨_, hok⟩ => (by cases hok), fun ⟨_, _, _, ha⟩ => (hnone _ _ ha).elim⟩
    · rw [collectSafeApproval_error hcalldata, collectSafeApproval_error hcalldata]
  | ok expectedData =>
    have hres : ∀ log ∈ logRows db.logs (q.logsParams pkg), ∀ approval,
        resolve pkg q db expectedData log = some approval ↔ Approves pkg q db.transactions log approval :=
      fun log hlog => (h.resolve hcalldata hlog).2
    have hnone : ∀ log ∈ logRows db.logs (q.logsParams pkg), resolve pkg q db expectedData log = none ↔
        ∀ x, ¬ Approves pkg q db.transactions log x := fun log hlog => by
      simp only [Option.eq_none_iff_forall_ne_some, ne_eq, hres log hlog]
    rw [h.collectSafeApproval hcalldata]
    refine ⟨fun approval => ?_, ?_, fun _ _ hno => ?_, fun db' h' htx hins => ?_⟩
    · rw [Except.ok.injEq, List.findSome?_eq_some_iff]
      refine exists_congr fun before => exists_congr fun log => exists_congr fun after =>
        and_congr_right fun hsplit => ?_
      have hbefore : ∀ l ∈ before, l ∈ logRows db.logs (q.logsParams pkg) := fun l hl => by
        rw [hsplit]
        exact List.mem_append_left _ hl
      have hlog : log ∈ logRows db.logs (q.logsParams pkg) := by
        rw [hsplit]
        exact List.mem_append_right _ List.mem_cons_self
      exact and_congr (hres log hlog approval) (forall₂_congr fun l hl => hnone l (hbefore l hl))
    · simp only [Except.ok.injEq]
      rw [← Option.isSome_iff_exists, List.findSome?_isSome_iff]
      simp only [Option.isSome_iff_exists]
      exact exists_congr fun log => and_congr_right fun hlog => exists_congr fun x => hres log hlog x
    · rw [Except.ok.injEq, List.findSome?_eq_none_iff]
      exact fun log hlog => (hnone log hlog).mpr (hno log hlog)
    · rw [h'.collectSafeApproval hcalldata, h.resolve_congr h' htx, Except.ok.injEq]
      refine findSome?_of_inserted hins fun log hlog approval ha => ?_
      rw [← h.resolve_congr h' htx] at ha
      exact htx ▸ ((h'.resolve hcalldata hlog).2 approval).mp ha

end Selection

/-- The event's data is a Safe nonce, calldata is a target, an operation and
data, and signatures verify at nonce 42. -/
def SafePkg.bytewise : SafePkg Unit where
  machinePathListApprovedEventSel := 5
  parseMachinePathListApproved e := .ok (e.data.headD 0).toUInt32
  approveMachinePathListCalldata extensionID nonce _ := .ok [.ofNat extensionID.toNat, nonce.toUInt8]
  execTransactionSelector := 1
  decodeExecTransactionCalldata b := match b with
    | target :: operation :: data => .ok ⟨.ofNat 160 target.toNat, data, operation, ()⟩
    | _ => .error "calldata"
  verify approval _ _ _ _ := if approval.nonce = 42 then .ok () else .error "signatures"
  fold := Char.toLower

/-- The list 3 of extension 2, under the Safe 8. -/
def safeListThree : SafeQuery := ⟨⟨8, [1, 2], 2⟩, 9, 2, 3, 7, 14, 10, 20⟩

def approvedLog (block : UInt64) (safeNonce : UInt8) (hash : String) : LogRow :=
  ⟨⟨9, ⟨5, 0, 0, 0⟩, [safeNonce], block, 0, 0, none⟩, hash⟩

/-- A call of the Safe in hex: the manager, an operation, the list 3 of an
extension. -/
def execRow (block : UInt64) (operation extensionID : Char) (hash : String) : TxRow :=
  ⟨⟨8, 1, block, ("090".toList ++ [operation, '0', extensionID] ++ "03".toList).map (·.toNat.toUInt8)⟩, hash, 1⟩

/-- A delegate call, an approval of another list, and the approval. -/
def threeApprovals : DB :=
  .of [approvedLog 12 42 "0xaa", approvedLog 13 42 "0xbb", approvedLog 13 42 "0xCC"]
    [execRow 12 '1' '2' "aa", execRow 13 '0' '4' "bb", execRow 13 '0' '2' "cc"]

theorem wellIndexed_threeApprovals : WellIndexed .bytewise safeListThree threeApprovals where
  logs_answered := ⟨_, rfl⟩
  transactions_answered _ := ⟨_, rfl⟩
  wellFormed log hlog := by
    refine ⟨?_, _, rfl⟩
    have hall : ∀ log ∈ threeApprovals.logs, log.corrupt = none := by decide +kernel
    exact hall log (Indexer.mem_logRows.mp hlog).1
  hashes := by decide +kernel
  selectors tx htx _ _ _ _ := by
    have hall : ∀ tx ∈ threeApprovals.transactions, tx.functionSig = 1 := by decide +kernel
    exact hall tx htx

theorem approval_selected_threeApprovals :
    (∃ approval, collectSafeApproval .bytewise safeListThree threeApprovals = .ok (some approval)) ∧
    collectSafeApproval .bytewise safeListThree threeApprovals = .ok (some ⟨⟨9, [2, 3], 0, ()⟩, 42⟩) := by
  refine ⟨(approval_selected _ _ _ wellIndexed_threeApprovals).2.1.mpr
    ⟨approvedLog 13 42 "0xCC", by decide +kernel, ⟨⟨9, [2, 3], 0, ()⟩, 42⟩, ?_⟩, by decide +kernel⟩
  have hmem : execRow 13 '0' '2' "cc" ∈ threeApprovals.transactions := by decide +kernel
  exact ⟨⟨42, rfl, rfl⟩, ⟨_, hmem, rfl, rfl, by decide +kernel, [9, 0, 2, 3], by decide +kernel, rfl⟩, rfl,
    rfl, rfl, rfl⟩

end TeeProxy.MachinePath
