/-
The C-chain indexer's tables, as `database` of go-flare-common queries them.

A log query is filtered by address and topics and gives the newest rows
first, in any order where timestamps are equal. A topic that is the zero hash
is a topic that was not set: it filters nothing. A transaction query is
filtered by address, selector and a range of blocks that is open below.
-/
import TeeProxy.Types
import TeeProxy.Lib.Scan

namespace TeeProxy.Indexer

/-- The topics of an event, the first of which is its selector. -/
structure Topics where
  topic0 : Hash
  topic1 : Hash
  topic2 : Hash
  topic3 : Hash
  deriving DecidableEq, Repr

/-- `database.Log`. The columns hold hex; `corrupt` is the error of `ToEthLog`
where one of them does not. -/
structure Log where
  address : Address
  topics : Topics
  data : Bytes
  blockNumber : UInt64
  logIndex : UInt64
  timestamp : UInt64
  corrupt : Option PkgErr
  deriving DecidableEq, Repr

/-- What a parser reads of a log. -/
structure EthLog where
  topics : Topics
  data : Bytes

def Log.toEthLog (log : Log) : Except PkgErr EthLog :=
  match log.corrupt with
  | some e => .error e
  | none => .ok ⟨log.topics, log.data⟩

/-- `database.LogsFullParams`. A negative number is no limit. -/
structure LogsFullParams where
  address : Address
  topics : Topics
  number : Int

/-- A topic of a query against that of a row. -/
def admits (wanted topic : Hash) : Bool := wanted = 0 ∨ topic = wanted

def LogsFullParams.selects (params : LogsFullParams) (log : Log) : Bool :=
  log.address = params.address && admits params.topics.topic0 log.topics.topic0 &&
    admits params.topics.topic1 log.topics.topic1 && admits params.topics.topic2 log.topics.topic2 &&
    admits params.topics.topic3 log.topics.topic3

def LogsFullParams.limit (params : LogsFullParams) (rows : List Log) : List Log :=
  if params.number < 0 then rows else rows.take params.number.toNat

/-- An answer of the query: the selected rows, newest first, up to the
limit. -/
def Answers (logs : List Log) (params : LogsFullParams) (rows : List Log) : Prop :=
  ∃ all, all.Perm (logs.filter params.selects) ∧ all.Pairwise (fun l l' => l'.timestamp ≤ l.timestamp) ∧
    rows = params.limit all

/-- The indexer while one function reads it: its logs do not change, and each
query fails or is answered from them. -/
structure Database where
  logs : List Log
  fetchLogsFull : LogsFullParams → Except PkgErr (List Log)
  answers : ∀ {params rows}, fetchLogsFull params = .ok rows → Answers logs params rows

section Rows

variable {db : Database} {params : LogsFullParams} {rows : List Log} {log : Log}

theorem mem_of_mem_limit (h : log ∈ params.limit rows) : log ∈ rows := by
  unfold LogsFullParams.limit at h
  split at h
  · exact h
  · exact List.mem_of_mem_take h

theorem Database.row_selected (h : db.fetchLogsFull params = .ok rows) (hrow : log ∈ rows) :
    log ∈ db.logs ∧ params.selects log = true := by
  obtain ⟨all, hperm, -, rfl⟩ := db.answers h
  exact List.mem_filter.mp (hperm.mem_iff.mp (mem_of_mem_limit hrow))

/-- A log the query selects is among its rows unless the limit is used up by
logs that are not older. -/
theorem Answers.mem {logs : List Log} (h : Answers logs params rows) (hlog : log ∈ logs)
    (hsel : params.selects log = true)
    (hcount : (logs.countP fun l => decide (log.timestamp ≤ l.timestamp) && params.selects l) ≤ params.number.toNat) :
    log ∈ rows := by
  obtain ⟨all, hperm, hsorted, rfl⟩ := h
  have hall : log ∈ all := hperm.mem_iff.mpr (List.mem_filter.mpr ⟨hlog, hsel⟩)
  unfold LogsFullParams.limit
  split
  · exact hall
  · refine Scan.mem_take_of_countP_le hsorted (UInt64.le_refl _) hall ?_
    rw [hperm.countP_eq, List.countP_filter]
    exact hcount

theorem admits_iff {wanted topic : Hash} (h : wanted ≠ 0) : admits wanted topic = true ↔ topic = wanted := by
  simp only [admits, decide_eq_true_eq, or_iff_right h]

/-- A number other than zero makes a topic that filters. -/
theorem ofNat_ne_zero {n : Nat} (hn : n ≠ 0) (hlt : n < 2 ^ 256) : (BitVec.ofNat 256 n : Hash) ≠ 0 := by
  intro hzero
  have hnat : n % 2 ^ 256 = 0 := congrArg BitVec.toNat hzero
  rw [Nat.mod_eq_of_lt hlt] at hnat
  exact hn hnat

theorem selects_iff : params.selects log = true ↔
    log.address = params.address ∧ admits params.topics.topic0 log.topics.topic0 = true ∧
      admits params.topics.topic1 log.topics.topic1 = true ∧ admits params.topics.topic2 log.topics.topic2 = true ∧
      admits params.topics.topic3 log.topics.topic3 = true := by
  simp only [LogsFullParams.selects, Bool.and_eq_true, decide_eq_true_eq, and_assoc]

end Rows

/-- An indexer with one log. -/
def Database.single (log : Log) : Database where
  logs := [log]
  fetchLogsFull params := .ok (params.limit ([log].filter params.selects))
  answers := by
    rintro params rows ⟨⟩
    exact ⟨_, .refl _, .filter _ (List.pairwise_singleton _ _), rfl⟩

/-- An indexer whose queries give its logs in their order. -/
def Database.ofLogs (logs : List Log) (h : logs.Pairwise fun l l' => l'.timestamp ≤ l.timestamp) : Database where
  logs
  fetchLogsFull params := .ok (params.limit (logs.filter params.selects))
  answers := by
    rintro params rows ⟨⟩
    exact ⟨_, .refl _, h.filter _, rfl⟩

/-! ## Transactions -/

/-- `database.Transaction`; `input` is the text of the column. -/
structure Transaction where
  toAddress : Address
  functionSig : BitVec 32
  blockNumber : UInt64
  input : Bytes
  deriving DecidableEq, Repr

/-- `database.State`: up to where the indexer has come. -/
structure State where
  index : UInt64
  blockTimestamp : UInt64
  deriving DecidableEq, Repr

/-- `database.TxParams`. -/
structure TxParams where
  toAddress : Address
  functionSel : BitVec 32
  fromBlock : Int64
  toBlock : Int64

/-- The block as a signed number. -/
def Transaction.block (tx : Transaction) : Int := tx.blockNumber.toNat

/-- A call of a function of a contract. -/
def Transaction.calls (toAddress : Address) (functionSel : BitVec 32) (tx : Transaction) : Bool :=
  tx.toAddress = toAddress && tx.functionSig = functionSel

/-- `database.FetchTransactionsByAddressAndSelectorBlockNumber`, from the
table in block order: the calls above `From` and up to `To`. -/
def fetchTransactions (transactions : List Transaction) (params : TxParams) : List Transaction :=
  Scan.window Transaction.block params.fromBlock.toInt params.toBlock.toInt
    (transactions.filter (Transaction.calls params.toAddress params.functionSel))

/-! ## Block numbers as int64 -/

theorem toInt_toInt64_of_lt {n : UInt64} (h : n.toNat < 2 ^ 63) : n.toInt64.toInt = n.toNat := by
  change n.toBitVec.toInt = _
  rw [BitVec.toInt_eq_toNat_cond]
  exact if_pos (by change 2 * n.toNat < 2 ^ 64; omega)

theorem toInt_toInt64_pred {n : UInt64} (h : n.toNat < 2 ^ 63) : (n.toInt64 - 1).toInt = n.toNat - 1 := by
  rw [Int64.toInt_sub, toInt_toInt64_of_lt h]
  change ((n.toNat : Int) - 1).bmod (2 ^ 64) = _
  rw [Int.bmod_def]
  omega

/-! ## Rows with hashes -/

/-- A row of the transactions with its hash, as text, and the status of its
receipt. -/
structure TxRow extends Transaction where
  hash : String
  status : UInt64
  deriving DecidableEq, Repr

/-- A row of the logs with the hash of its transaction. -/
structure LogRow extends Log where
  transactionHash : String
  deriving DecidableEq, Repr

/-- The block as a signed number. -/
def LogRow.block (row : LogRow) : Int := row.blockNumber.toNat

/-- `database.LogsParams`. -/
structure LogsParams where
  address : Address
  topic0 : Hash
  fromBlock : Int64
  toBlock : Int64

/-- `database.FetchLogsByAddressAndTopic0BlockNumber`, from the table in the
order the query gives its rows. -/
def logRows (logs : List LogRow) (params : LogsParams) : List LogRow :=
  Scan.window LogRow.block params.fromBlock.toInt params.toBlock.toInt
    (logs.filter fun row => row.address = params.address ∧ row.topics.topic0 = params.topic0)

/-- `fetchTransactions`, of rows with hashes. -/
def txRows (transactions : List TxRow) (params : TxParams) : List TxRow :=
  Scan.window (fun row => row.block) params.fromBlock.toInt params.toBlock.toInt
    (transactions.filter fun row => row.calls params.toAddress params.functionSel)

/-- The indexer's database while one function reads it: each query fails or is
answered from its tables. -/
structure DB where
  logs : List LogRow
  transactions : List TxRow
  fetchLogs : LogsParams → Except PkgErr (List LogRow)
  fetchTransactions : TxParams → Except PkgErr (List TxRow)
  fetchLogs_ok : ∀ {params rows}, fetchLogs params = .ok rows → rows = logRows logs params
  fetchTransactions_ok : ∀ {params rows}, fetchTransactions params = .ok rows → rows = txRows transactions params

/-- A database whose queries do not fail. -/
def DB.of (logs : List LogRow) (transactions : List TxRow) : DB where
  logs
  transactions
  fetchLogs params := .ok (logRows logs params)
  fetchTransactions params := .ok (txRows transactions params)
  fetchLogs_ok h := (Except.ok.inj h).symm
  fetchTransactions_ok h := (Except.ok.inj h).symm

theorem txRows_cons (row : TxRow) (rows : List TxRow) (params : TxParams) :
    txRows (row :: rows) params =
      if row.calls params.toAddress params.functionSel = true ∧
        (params.fromBlock.toInt < row.block ∧ row.block ≤ params.toBlock.toInt)
      then row :: txRows rows params else txRows rows params := by
  unfold txRows Scan.window
  by_cases hcalls : row.calls params.toAddress params.functionSel = true
  · by_cases hblock : params.fromBlock.toInt < row.block ∧ row.block ≤ params.toBlock.toInt
    · simp [hcalls, hblock]
    · simp [hcalls, hblock]
  · simp [hcalls]

theorem mem_txRows {transactions : List TxRow} {params : TxParams} {row : TxRow} :
    row ∈ txRows transactions params ↔ row ∈ transactions ∧ row.calls params.toAddress params.functionSel = true ∧
      params.fromBlock.toInt < row.block ∧ row.block ≤ params.toBlock.toInt := by
  simp only [txRows, Scan.window, List.mem_filter, decide_eq_true_eq, and_assoc]

theorem logRows_append (logs logs' : List LogRow) (params : LogsParams) :
    logRows (logs ++ logs') params = logRows logs params ++ logRows logs' params := by
  unfold logRows Scan.window
  rw [List.filter_append, List.filter_append]

theorem mem_logRows {logs : List LogRow} {params : LogsParams} {row : LogRow} :
    row ∈ logRows logs params ↔ row ∈ logs ∧ row.address = params.address ∧ row.topics.topic0 = params.topic0 ∧
      params.fromBlock.toInt < row.block ∧ row.block ≤ params.toBlock.toInt := by
  simp only [logRows, Scan.window, List.mem_filter, decide_eq_true_eq, and_assoc]

end TeeProxy.Indexer
