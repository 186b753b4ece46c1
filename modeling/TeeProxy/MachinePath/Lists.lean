/-
Machine path lists (`pkg/machinepath/machinepath.go`): which signed list is
the latest, and which paths a list has, read off the indexed events of the
MachinePathManager.

Both queries filter by the extension's ID as a topic and take every row they
get for an event of the extension. For the extension with ID zero the topic
filters nothing, and the events of every extension are read as its own.
-/
import TeeProxy.Indexer
import TeeProxy.Lib.Fallible

namespace TeeProxy.MachinePath

open Indexer (Log EthLog Topics LogsFullParams Database)

/-- `cmpaths.IMachinePathManagerMachinePath`. -/
structure Path where
  sourceTeeIds : List Address
  destinationTeeIds : List Address
  deriving DecidableEq, Repr

/-- The event of a list that reached the governance threshold. Its arguments
are uint256. -/
structure MachinePathListSigned where
  extensionId : Nat
  nonce : Nat
  deriving DecidableEq, Repr

/-- The event of paths that were added to a list. -/
structure MachinePathsAdded where
  extensionId : Nat
  nonce : Nat
  paths : List Path
  deriving DecidableEq, Repr

/-- The bindings of the manager: the selectors of its events and the parsers of
`filterer`. An event that parses has its selector as its first topic, and the
extension and the nonce are the next two; the paths are its data. A signed
list needs no data, and there is data with a path. -/
structure ManagerABI where
  machinePathListSignedEventSel : Hash
  machinePathsAddedEventSel : Hash
  parseMachinePathListSigned : EthLog → Except PkgErr MachinePathListSigned
  parseMachinePathsAdded : EthLog → Except PkgErr MachinePathsAdded
  signed_topics : ∀ {e event}, parseMachinePathListSigned e = .ok event →
    e.topics.topic0 = machinePathListSignedEventSel ∧ event = ⟨e.topics.topic1.toNat, e.topics.topic2.toNat⟩
  added_topics : ∀ {e event}, parseMachinePathsAdded e = .ok event →
    e.topics.topic0 = machinePathsAddedEventSel ∧ event.extensionId = e.topics.topic1.toNat ∧
      event.nonce = e.topics.topic2.toNat
  signed_parses : ∀ topics, topics.topic0 = machinePathListSignedEventSel →
    ∃ event, parseMachinePathListSigned ⟨topics, []⟩ = .ok event
  added_parses : ∃ data p, ∀ topics, topics.topic0 = machinePathsAddedEventSel →
    ∃ event, parseMachinePathsAdded ⟨topics, data⟩ = .ok event ∧ event.paths = [p]

/-- The errors of `LatestSignedList` and `fetchPaths`. -/
inductive Err
  | fetching (e : PkgErr)
  | converting (e : PkgErr)
  | parsingSigned (e : PkgErr)
  | parsingAdded (e : PkgErr)
  | noPaths
  deriving DecidableEq, Repr

/-- `convert.Uint64ToHash`. -/
def uint64ToHash (n : UInt64) : Hash := .ofNat 256 n.toNat

def recentSignedLogsLimit : Int := 20

/-- The order of the chain. -/
def onChainBefore (l l' : Log) : Bool :=
  if l.blockNumber ≠ l'.blockNumber then l.blockNumber < l'.blockNumber else l.logIndex < l'.logIndex

/-- `sort.Slice` by the order of the chain: the same logs, none after a later
one. Logs of one block and index can come in any order. -/
structure SortSlice where
  sort : List Log → List Log
  perm : ∀ l, (sort l).Perm l
  sorted : ∀ l, (sort l).Pairwise fun x y => onChainBefore y x = false

theorem onChainBefore_iff {l l' : Log} : onChainBefore l l' = true ↔
    l.blockNumber.toNat < l'.blockNumber.toNat ∨
      l.blockNumber.toNat = l'.blockNumber.toNat ∧ l.logIndex.toNat < l'.logIndex.toNat := by
  unfold onChainBefore
  split
  next hne =>
    have hne' : l.blockNumber.toNat ≠ l'.blockNumber.toNat := fun h => hne (UInt64.toNat_inj.mp h)
    simp [UInt64.lt_iff_toNat_lt, hne']
  next heq => simp [UInt64.lt_iff_toNat_lt, not_not.mp heq]

/-- Merge sort is such a sort. -/
def SortSlice.merge : SortSlice where
  sort l := l.mergeSort fun x y => !onChainBefore y x
  perm l := List.mergeSort_perm l _
  sorted l := by
    have hle : ∀ x y : Log, (!onChainBefore y x) = true ↔ ¬ (y.blockNumber.toNat < x.blockNumber.toNat ∨
        y.blockNumber.toNat = x.blockNumber.toNat ∧ y.logIndex.toNat < x.logIndex.toNat) := fun x y => by
      rw [Bool.not_eq_true', ← Bool.not_eq_true, onChainBefore_iff]
    have hsorted : (l.mergeSort fun x y => !onChainBefore y x).Pairwise fun x y => (!onChainBefore y x) = true :=
      List.pairwise_mergeSort (fun x y z hxy hyz => by rw [hle] at *; omega)
        (fun x y => by rw [Bool.or_eq_true, hle, hle]; omega) l
    exact hsorted.imp fun h => by simpa using h

section Lists

variable (abi : ManagerABI)

/-! ## The code -/

/-- A row as a signed list. -/
def readSigned (log : Log) : Except Err MachinePathListSigned := do
  let ethLog ← log.toEthLog.mapError .converting
  (abi.parseMachinePathListSigned ethLog).mapError .parsingSigned

/-- A row as added paths. -/
def readAdded (log : Log) : Except Err MachinePathsAdded := do
  let ethLog ← log.toEthLog.mapError .converting
  (abi.parseMachinePathsAdded ethLog).mapError .parsingAdded

/-- The loop of `LatestSignedList`, with the nonce and the block found so far. -/
def selectList (afterNonce : UInt64) : Option (UInt64 × UInt64) → List Log → Except Err (Option (UInt64 × UInt64))
  | found, [] => .ok found
  | found, log :: logs => do
    let event ← readSigned abi log
    if event.nonce < 2 ^ 64 then
      let n : UInt64 := .ofNat event.nonce
      if n > afterNonce ∧ found.all (fun best => n > best.1) then
        selectList afterNonce (some (n, log.blockNumber)) logs
      else selectList afterNonce found logs
    else selectList afterNonce found logs

/-- The highest nonce above `afterNonce` and its block, where there is one. -/
def latestSignedList (db : Database) (managerAddress : Address) (extensionID : Hash) (afterNonce : UInt64) :
    Except Err (Option (UInt64 × UInt64)) := do
  let logs ← (db.fetchLogsFull ⟨managerAddress, ⟨abi.machinePathListSignedEventSel, extensionID, 0, 0⟩,
    recentSignedLogsLimit⟩).mapError .fetching
  selectList abi afterNonce none logs

/-- The loop of `fetchPaths`. -/
def collectPaths : List Log → Except Err (List Path)
  | [] => .ok []
  | log :: logs => do
    let event ← readAdded abi log
    let paths ← collectPaths logs
    return event.paths ++ paths

/-- `fetchPaths` after its query. -/
def assemblePaths (sort : SortSlice) (logs : List Log) : Except Err (List Path × UInt64) :=
  match sort.sort logs with
  | [] => .error .noPaths
  | first :: logs => do
    let paths ← collectPaths abi (first :: logs)
    return (paths, first.blockNumber)

/-- The paths of a list in the order of the chain, and the block of the first. -/
def fetchPaths (sort : SortSlice) (db : Database) (managerAddress : Address) (extensionID : Hash) (nonce : UInt64) :
    Except Err (List Path × UInt64) := do
  let logs ← (db.fetchLogsFull ⟨managerAddress,
    ⟨abi.machinePathsAddedEventSel, extensionID, uint64ToHash nonce, 0⟩, -1⟩).mapError .fetching
  assemblePaths abi sort logs

end Lists

section Own

variable {abi : ManagerABI} {db : Database} {managerAddress : Address} {extensionID : Hash} {nonce afterNonce : UInt64}
  {log : Log}

/-! ## What the loops read -/

theorem toEthLog_ok {e : EthLog} (h : log.toEthLog = .ok e) : e = ⟨log.topics, log.data⟩ := by
  unfold Log.toEthLog at h
  split at h
  · cases h
  · cases h; rfl

theorem readSigned_ok {event : MachinePathListSigned} (h : readSigned abi log = .ok event) :
    log.topics.topic0 = abi.machinePathListSignedEventSel ∧
      event = ⟨log.topics.topic1.toNat, log.topics.topic2.toNat⟩ := by
  unfold readSigned at h
  simp only [Except.bind_ok_iff, Except.mapError_ok_iff] at h
  obtain ⟨e, he, hparse⟩ := h
  cases toEthLog_ok he
  exact abi.signed_topics hparse

theorem readAdded_ok {event : MachinePathsAdded} (h : readAdded abi log = .ok event) :
    event.extensionId = log.topics.topic1.toNat ∧ event.nonce = log.topics.topic2.toNat := by
  unfold readAdded at h
  simp only [Except.bind_ok_iff, Except.mapError_ok_iff] at h
  obtain ⟨e, he, hparse⟩ := h
  cases toEthLog_ok he
  exact (abi.added_topics hparse).2

/-- What the loop ends with was there before, or is the nonce and the block
of a row. -/
theorem selectList_ok {logs : List Log} : ∀ {found : Option (UInt64 × UInt64)} {n b : UInt64},
    selectList abi afterNonce found logs = .ok (some (n, b)) →
      found = some (n, b) ∨
      ∃ log ∈ logs, ∃ event, readSigned abi log = .ok event ∧ event.nonce = n.toNat ∧ log.blockNumber = b := by
  induction logs with
  | nil =>
    intro found n b h
    exact .inl (Except.ok.inj h)
  | cons log logs ih =>
    intro found n b h
    unfold selectList at h
    simp only [Except.bind_ok_iff] at h
    obtain ⟨event, hevent, h⟩ := h
    have hlater : ∀ {found : Option (UInt64 × UInt64)}, selectList abi afterNonce found logs = .ok (some (n, b)) →
        found = some (n, b) ∨ ∃ log' ∈ log :: logs, ∃ event, readSigned abi log' = .ok event ∧
          event.nonce = n.toNat ∧ log'.blockNumber = b := by
      intro found h
      rcases ih h with hfound | ⟨log', hmem, hrest⟩
      · exact .inl hfound
      · exact .inr ⟨log', List.mem_cons_of_mem _ hmem, hrest⟩
    split at h
    next h64 =>
      split at h
      · rcases hlater h with hfound | hrow
        · cases hfound
          refine .inr ⟨log, List.mem_cons_self, event, hevent, ?_, rfl⟩
          exact (UInt64.toNat_ofNat_of_lt' h64).symm
        · exact .inr hrow
      · exact hlater h
    · exact hlater h

theorem mem_collectPaths {p : Path} {logs : List Log} : ∀ {paths : List Path},
    collectPaths abi logs = .ok paths → p ∈ paths →
      ∃ log ∈ logs, ∃ event, readAdded abi log = .ok event ∧ p ∈ event.paths := by
  induction logs with
  | nil =>
    intro paths h hp
    cases h
    cases hp
  | cons log logs ih =>
    intro paths h hp
    unfold collectPaths at h
    simp only [Except.bind_ok_iff, Except.pure_ok_iff] at h
    obtain ⟨event, hevent, rest, hrest, rfl⟩ := h
    rcases List.mem_append.mp hp with hp | hp
    · exact ⟨log, List.mem_cons_self, event, hevent, hp⟩
    · obtain ⟨log', hmem, hfrom⟩ := ih hrest hp
      exact ⟨log', List.mem_cons_of_mem _ hmem, hfrom⟩

/-! ## Events of one extension -/

variable (abi managerAddress extensionID nonce)

/-- The log is a signed list of the extension, with the nonce. -/
def SignedIn (log : Log) : Prop :=
  log.address = managerAddress ∧ readSigned abi log = .ok ⟨extensionID.toNat, nonce.toNat⟩

/-- The log adds the path to the extension's list with the nonce. -/
def AddedIn (p : Path) (log : Log) : Prop :=
  log.address = managerAddress ∧ ∃ event, readAdded abi log = .ok event ∧ event.extensionId = extensionID.toNat ∧
    event.nonce = nonce.toNat ∧ p ∈ event.paths

/-- `LatestSignedList` gives nonces of the extension's own lists, whatever is
indexed. -/
def SignedListsOwn : Prop :=
  ∀ (db : Database) (afterNonce nonce toBlock : UInt64),
    latestSignedList abi db managerAddress extensionID afterNonce = .ok (some (nonce, toBlock)) →
      ∃ log ∈ db.logs, SignedIn abi managerAddress extensionID nonce log

/-- `fetchPaths` gives paths of the extension's own list, whatever is indexed. -/
def PathsOwn : Prop :=
  ∀ (sort : SortSlice) (db : Database) (paths : List Path) (fromBlock : UInt64),
    fetchPaths abi sort db managerAddress extensionID nonce = .ok (paths, fromBlock) →
      ∀ p ∈ paths, ∃ log ∈ db.logs, AddedIn abi managerAddress extensionID nonce p log

variable {abi managerAddress extensionID nonce}

theorem signedListsOwn_of_ne (hid : extensionID ≠ 0) : SignedListsOwn abi managerAddress extensionID := by
  intro db afterNonce nonce toBlock h
  unfold latestSignedList at h
  simp only [Except.bind_ok_iff, Except.mapError_ok_iff] at h
  obtain ⟨rows, hrows, h⟩ := h
  rcases selectList_ok h with hnone | ⟨log, hlog, event, hevent, hnonce, -⟩
  · cases hnone
  obtain ⟨hmem, hsel⟩ := Database.row_selected hrows hlog
  obtain ⟨haddr, -, hext, -, -⟩ := Indexer.selects_iff.mp hsel
  have htopic : log.topics.topic1 = extensionID := (Indexer.admits_iff hid).mp hext
  refine ⟨log, hmem, haddr, ?_⟩
  rw [hevent, ← htopic, ← hnonce, (readSigned_ok hevent).2]

theorem uint64ToHash_toNat (n : UInt64) : (uint64ToHash n).toNat = n.toNat := by
  have hlt := n.toNat_lt
  simp only [uint64ToHash, BitVec.toNat_ofNat]
  omega

theorem pathsOwn_of_ne (hnonce : 1 ≤ nonce) (hid : extensionID ≠ 0) :
    PathsOwn abi managerAddress extensionID nonce := by
  intro sort db paths fromBlock h p hp
  unfold fetchPaths at h
  simp only [Except.bind_ok_iff, Except.mapError_ok_iff] at h
  obtain ⟨rows, hrows, h⟩ := h
  unfold assemblePaths at h
  split at h
  · cases h
  next first rest hsort =>
  simp only [Except.bind_ok_iff, Except.pure_ok_iff] at h
  obtain ⟨paths', hpaths, heq⟩ := h
  cases heq
  obtain ⟨log, hlog, event, hevent, hpath⟩ := mem_collectPaths hpaths hp
  rw [← hsort, (sort.perm rows).mem_iff] at hlog
  obtain ⟨hmem, hsel⟩ := Database.row_selected hrows hlog
  obtain ⟨haddr, -, hext, hlist, -⟩ := Indexer.selects_iff.mp hsel
  have htopic1 : log.topics.topic1 = extensionID := (Indexer.admits_iff hid).mp hext
  have hpos : nonce.toNat ≠ 0 := Nat.ne_of_gt (UInt64.le_iff_toNat_le.mp hnonce)
  have hset : uint64ToHash nonce ≠ 0 := Indexer.ofNat_ne_zero hpos (Nat.lt_trans nonce.toNat_lt (by decide))
  have htopic2 : log.topics.topic2 = uint64ToHash nonce := (Indexer.admits_iff hset).mp hlist
  obtain ⟨hid', hnonce'⟩ := readAdded_ok hevent
  refine ⟨log, hmem, haddr, event, hevent, ?_, ?_, hpath⟩
  · rw [hid', htopic1]
  · rw [hnonce', htopic2, uint64ToHash_toNat]

end Own

/-! ## Extension zero -/

section Zero

variable (abi : ManagerABI) (managerAddress : Address)

/-- An event of the extension with ID one. -/
def foreignLog (sel : Hash) (nonce : UInt64) (data : Bytes) : Log :=
  ⟨managerAddress, ⟨sel, 1, uint64ToHash nonce, 0⟩, data, 7, 0, 7, none⟩

theorem single_foreignLog {sel : Hash} {nonce : UInt64} {data : Bytes} {topic2 : Hash} {number : Int}
    (hlist : Indexer.admits topic2 (uint64ToHash nonce) = true) (hnumber : number < 0 ∨ 1 ≤ number) :
    (Database.single (foreignLog managerAddress sel nonce data)).fetchLogsFull
      ⟨managerAddress, ⟨sel, 0, topic2, 0⟩, number⟩ = .ok [foreignLog managerAddress sel nonce data] := by
  have hsel : LogsFullParams.selects ⟨managerAddress, ⟨sel, 0, topic2, 0⟩, number⟩
      (foreignLog managerAddress sel nonce data) = true :=
    Indexer.selects_iff.mpr ⟨rfl, by simp [Indexer.admits, foreignLog], by simp [Indexer.admits], hlist,
      by simp [Indexer.admits]⟩
  simp only [Database.single, List.filter_cons_of_pos hsel, List.filter_nil, LogsFullParams.limit]
  split
  · rfl
  · rw [List.take_of_length_le (by simp; omega)]

theorem readSigned_foreignLog (nonce : UInt64) :
    readSigned abi (foreignLog managerAddress abi.machinePathListSignedEventSel nonce []) = .ok ⟨1, nonce.toNat⟩ := by
  obtain ⟨event, hevent⟩ := abi.signed_parses ⟨abi.machinePathListSignedEventSel, 1, uint64ToHash nonce, 0⟩ rfl
  have hread : readSigned abi (foreignLog managerAddress abi.machinePathListSignedEventSel nonce []) = .ok event := by
    simp only [readSigned, Except.bind_ok_iff, Except.mapError_ok_iff]
    exact ⟨_, rfl, hevent⟩
  rw [hread, (readSigned_ok hread).2]
  simp only [foreignLog, uint64ToHash_toNat]
  rfl

theorem latestSignedList_foreignLog {nonce : UInt64} (hnonce : 0 < nonce) :
    latestSignedList abi (.single (foreignLog managerAddress abi.machinePathListSignedEventSel nonce []))
      managerAddress 0 0 = .ok (some (nonce, 7)) := by
  unfold latestSignedList
  simp only [Except.bind_ok_iff, Except.mapError_ok_iff]
  refine ⟨_, single_foreignLog managerAddress (by simp [Indexer.admits]) (by decide), ?_⟩
  simp only [selectList, Except.bind_ok_iff]
  refine ⟨_, readSigned_foreignLog abi managerAddress nonce, ?_⟩
  simp [nonce.toNat_lt, hnonce, foreignLog]

theorem not_signedListsOwn_zero : ¬ SignedListsOwn abi managerAddress 0 := by
  intro h
  have hone : (0 : UInt64) < 1 := by decide
  obtain ⟨log, hlog, -, hread⟩ := h _ _ _ _ (latestSignedList_foreignLog abi managerAddress hone)
  cases List.mem_singleton.mp hlog
  rw [readSigned_foreignLog] at hread
  simp at hread

theorem readAdded_foreignLog {nonce : UInt64} {data : Bytes} {event : MachinePathsAdded}
    (hdata : abi.parseMachinePathsAdded
      ⟨⟨abi.machinePathsAddedEventSel, 1, uint64ToHash nonce, 0⟩, data⟩ = .ok event) :
    readAdded abi (foreignLog managerAddress abi.machinePathsAddedEventSel nonce data) = .ok event := by
  simp only [readAdded, Except.bind_ok_iff, Except.mapError_ok_iff]
  exact ⟨_, rfl, hdata⟩

theorem fetchPaths_foreignLog (sort : SortSlice) {nonce : UInt64} {data : Bytes} {event : MachinePathsAdded}
    (hdata : abi.parseMachinePathsAdded
      ⟨⟨abi.machinePathsAddedEventSel, 1, uint64ToHash nonce, 0⟩, data⟩ = .ok event) :
    fetchPaths abi sort (.single (foreignLog managerAddress abi.machinePathsAddedEventSel nonce data))
      managerAddress 0 nonce = .ok (event.paths, 7) := by
  have hsort : sort.sort [foreignLog managerAddress abi.machinePathsAddedEventSel nonce data] = [_] :=
    List.perm_singleton.mp (sort.perm _)
  unfold fetchPaths
  simp only [Except.bind_ok_iff, Except.mapError_ok_iff]
  refine ⟨_, single_foreignLog managerAddress (by simp [Indexer.admits]) (by decide), ?_⟩
  rw [assemblePaths, hsort]
  simp only [collectPaths, Except.bind_ok_iff, Except.pure_ok_iff]
  exact ⟨event.paths, ⟨_, readAdded_foreignLog abi managerAddress hdata, [], rfl, by simp⟩, rfl⟩

theorem not_pathsOwn_zero (nonce : UInt64) : ¬ PathsOwn abi managerAddress 0 nonce := by
  intro h
  obtain ⟨data, p, hparses⟩ := abi.added_parses
  obtain ⟨event, hdata, hpaths⟩ := hparses ⟨abi.machinePathsAddedEventSel, 1, uint64ToHash nonce, 0⟩ rfl
  have hmem : p ∈ event.paths := by rw [hpaths]; exact List.mem_cons_self
  obtain ⟨log, hlog, -, event', hread, hid, -⟩ :=
    h .merge _ _ _ (fetchPaths_foreignLog abi managerAddress .merge hdata) p hmem
  cases List.mem_singleton.mp hlog
  rw [(readAdded_ok hread).1] at hid
  cases hid

/-- **Whose events a list is built from.** The latest signed list and the
paths of a list come from events of the extension itself, whatever is
indexed, exactly if the extension's ID is not zero. -/
theorem own_events_iff (extensionID : Hash) {nonce : UInt64} (hnonce : 1 ≤ nonce) :
    (SignedListsOwn abi managerAddress extensionID ↔ extensionID ≠ 0) ∧
      (PathsOwn abi managerAddress extensionID nonce ↔ extensionID ≠ 0) := by
  refine ⟨⟨?_, signedListsOwn_of_ne⟩, ⟨?_, pathsOwn_of_ne hnonce⟩⟩
  · rintro h rfl
    exact not_signedListsOwn_zero abi managerAddress h
  · rintro h rfl
    exact not_pathsOwn_zero abi managerAddress nonce h

end Zero

/-- Selectors one and two; a byte of data is a path from a machine to
nowhere. -/
def plainABI : ManagerABI where
  machinePathListSignedEventSel := 1
  machinePathsAddedEventSel := 2
  parseMachinePathListSigned e :=
    if e.topics.topic0 ≠ 1 then .error "event signature mismatch"
    else .ok ⟨e.topics.topic1.toNat, e.topics.topic2.toNat⟩
  parseMachinePathsAdded e :=
    if e.topics.topic0 ≠ 2 then .error "event signature mismatch"
    else .ok ⟨e.topics.topic1.toNat, e.topics.topic2.toNat, e.data.map fun b => ⟨[.ofNat 160 b.toNat], []⟩⟩
  signed_topics := by
    intro e event h
    split at h
    · cases h
    next htopic => cases h; exact ⟨not_not.mp htopic, rfl⟩
  added_topics := by
    intro e event h
    split at h
    · cases h
    next htopic => cases h; exact ⟨not_not.mp htopic, rfl, rfl⟩
  signed_parses := fun topics htopic => ⟨_, if_neg (not_not.mpr htopic)⟩
  added_parses := ⟨[5], _, fun topics htopic => ⟨_, if_neg (not_not.mpr htopic), rfl⟩⟩

theorem own_events_one : SignedListsOwn plainABI 9 1 ∧ PathsOwn plainABI 9 1 3 := by
  have hiff := own_events_iff plainABI 9 1 (show (1 : UInt64) ≤ 3 by decide)
  exact ⟨hiff.1.mpr (by decide), hiff.2.mpr (by decide)⟩

/-- Extension one has the only events. Its list is taken for one of
extension zero, and so are the paths. -/
theorem zero_extension_reads_foreign :
    (∃ db : Database, latestSignedList plainABI db 9 0 0 = .ok (some (3, 7)) ∧
      ∀ log ∈ db.logs, ¬ SignedIn plainABI 9 0 3 log) ∧
    ∃ db : Database, fetchPaths plainABI .merge db 9 0 3 = .ok ([⟨[5], []⟩], 7) ∧
      ∀ log ∈ db.logs, ¬ AddedIn plainABI 9 0 3 ⟨[5], []⟩ log := by
  refine ⟨⟨.single (foreignLog 9 1 3 []), latestSignedList_foreignLog plainABI 9 (by decide), ?_⟩,
    ⟨.single (foreignLog 9 2 3 [5]), fetchPaths_foreignLog plainABI 9 .merge rfl, ?_⟩⟩
  · rintro log hlog ⟨-, hread⟩
    cases List.mem_singleton.mp hlog
    cases hread
  · rintro log hlog ⟨-, event, hread, hid, -⟩
    cases List.mem_singleton.mp hlog
    cases hread
    cases hid

end TeeProxy.MachinePath
