/-
The order of a list's paths (`fetchPaths`). The message that governance signs
covers the paths in the order of the chain, so the rows of the indexer, in
whatever order they come, have to give the same list.

Logs have a place on the chain, a block and an index in it. Where no two logs
share a place there is one way to sort them (`sort_eq`), and `path_order_canonical`
says what comes out.
-/
import TeeProxy.MachinePath.Lists

namespace TeeProxy.MachinePath

open Indexer (Log LogsFullParams Database)

/-- The query of `fetchPaths`. -/
def pathsQuery (abi : ManagerABI) (managerAddress : Address) (extensionID : Hash) (nonce : UInt64) : LogsFullParams :=
  ⟨managerAddress, ⟨abi.machinePathsAddedEventSel, extensionID, uint64ToHash nonce, 0⟩, -1⟩

/-- The place of a log on the chain. -/
def place (log : Log) : UInt64 × UInt64 := (log.blockNumber, log.logIndex)

/-- The paths of a log's event. -/
def pathsIn (abi : ManagerABI) (log : Log) : List Path :=
  match readAdded abi log with
  | .ok event => event.paths
  | .error _ => []

section Order

variable {abi : ManagerABI} {sort sort' : SortSlice} {rows rows' : List Log} {l l' : Log}

theorem fetchPaths_of_rows {db : Database} {managerAddress : Address} {extensionID : Hash} {nonce : UInt64}
    (h : db.fetchLogsFull (pathsQuery abi managerAddress extensionID nonce) = .ok rows) :
    fetchPaths abi sort db managerAddress extensionID nonce = assemblePaths abi sort rows := by
  rw [pathsQuery] at h
  rw [fetchPaths, h]
  rfl

/-- Logs that come neither before nor after one another share their place. -/
theorem place_eq_of_not_before (h : onChainBefore l l' = false) (h' : onChainBefore l' l = false) :
    place l = place l' := by
  rw [← Bool.not_eq_true, onChainBefore_iff] at h h'
  refine Prod.ext (UInt64.toNat_inj.mp ?_) (UInt64.toNat_inj.mp ?_)
  · change l.blockNumber.toNat = l'.blockNumber.toNat
    omega
  · change l.logIndex.toNat = l'.logIndex.toNat
    omega

/-- **One order.** However the rows come and however ties are broken, logs with
places of their own are sorted in one way. -/
theorem sort_eq (hdistinct : (rows.map place).Nodup) (hperm : rows'.Perm rows) :
    sort'.sort rows' = sort.sort rows := by
  have hsame : (sort'.sort rows').Perm (sort.sort rows) := (sort'.perm rows').trans (hperm.trans (sort.perm rows).symm)
  refine hsame.eq_of_pairwise (fun x y hx hy hxy hyx => ?_) (sort'.sorted rows') (sort.sorted rows)
  have hx' : x ∈ rows := hperm.mem_iff.mp ((sort'.perm rows').mem_iff.mp hx)
  have hy' : y ∈ rows := (sort.perm rows).mem_iff.mp hy
  exact List.inj_on_of_nodup_map hdistinct hx' hy' (place_eq_of_not_before hyx hxy)

theorem strictly_sorted (hdistinct : (rows.map place).Nodup) :
    (sort.sort rows).Pairwise fun x y => onChainBefore x y = true := by
  have hnodup : ((sort.sort rows).map place).Nodup := ((sort.perm rows).map place).nodup_iff.mpr hdistinct
  refine ((sort.sorted rows).and (List.pairwise_map.mp hnodup)).imp fun {x y} h => ?_
  by_contra hxy
  exact h.2 (place_eq_of_not_before (by simpa using hxy) h.1)

theorem collectPaths_eq (hread : ∀ log ∈ rows, ∃ event, readAdded abi log = .ok event) :
    collectPaths abi rows = .ok (rows.flatMap (pathsIn abi)) := by
  induction rows with
  | nil => rfl
  | cons log rows ih =>
    obtain ⟨event, hevent⟩ := hread log List.mem_cons_self
    have hrest := ih fun l hl => hread l (List.mem_cons_of_mem _ hl)
    have hpaths : pathsIn abi log = event.paths := by rw [pathsIn, hevent]
    rw [collectPaths, hevent, hrest, List.flatMap_cons, hpaths]
    rfl

theorem blockNumber_head_le {first : Log} {rest : List Log} (h : sort.sort rows = first :: rest) :
    first ∈ rows ∧ ∀ log ∈ rows, first.blockNumber ≤ log.blockNumber := by
  have hsorted := sort.sorted rows
  rw [h, List.pairwise_cons] at hsorted
  have hmem : ∀ log, log ∈ rows ↔ log ∈ first :: rest := fun log => by rw [← h, (sort.perm rows).mem_iff]
  refine ⟨(hmem first).mpr List.mem_cons_self, fun log hlog => ?_⟩
  rcases List.mem_cons.mp ((hmem log).mp hlog) with rfl | hlog
  · exact UInt64.le_refl _
  · have hnot := hsorted.1 log hlog
    rw [← Bool.not_eq_true, onChainBefore_iff] at hnot
    rw [UInt64.le_iff_toNat_le]
    omega

end Order

/-- **Path order is canonical.** For logs with places of their own, every order
in which the rows come and every way of sorting them give the same answer of
`fetchPaths`. If there are any and they parse, that is the paths of the events
one event after the other in the order of the chain, each event once, and the
smallest block. -/
theorem path_order_canonical (abi : ManagerABI) (rows : List Log) (hdistinct : (rows.map place).Nodup) :
    (∀ sort sort' rows', rows'.Perm rows → assemblePaths abi sort' rows' = assemblePaths abi sort rows) ∧
    (∀ sort db managerAddress extensionID nonce rows',
      db.fetchLogsFull (pathsQuery abi managerAddress extensionID nonce) = .ok rows' → rows'.Perm rows →
        fetchPaths abi sort db managerAddress extensionID nonce = assemblePaths abi sort rows) ∧
    (rows ≠ [] → (∀ log ∈ rows, ∃ event, readAdded abi log = .ok event) →
      ∃ (chain : List Log) (first : Log), chain.Perm rows ∧ (chain.Pairwise fun x y => onChainBefore x y = true) ∧
        first ∈ rows ∧ (∀ log ∈ rows, first.blockNumber ≤ log.blockNumber) ∧
        ∀ sort, assemblePaths abi sort rows = .ok (chain.flatMap (pathsIn abi), first.blockNumber)) := by
  have hsame : ∀ sort sort' rows', rows'.Perm rows → assemblePaths abi sort' rows' = assemblePaths abi sort rows :=
    fun sort sort' rows' hperm => by rw [assemblePaths, sort_eq hdistinct hperm, assemblePaths]
  refine ⟨hsame, fun sort db managerAddress extensionID nonce rows' hrows hperm => ?_, fun hne hread => ?_⟩
  · rw [fetchPaths_of_rows hrows, hsame sort sort rows' hperm]
  · cases hsort : SortSlice.merge.sort rows with
    | nil => exact absurd (hsort ▸ SortSlice.merge.perm rows).nil_eq.symm hne
    | cons first rest =>
      obtain ⟨hmem, hmin⟩ := blockNumber_head_le hsort
      refine ⟨first :: rest, first, hsort ▸ SortSlice.merge.perm rows, hsort ▸ strictly_sorted hdistinct, hmem, hmin,
        fun sort => ?_⟩
      have hchain : ∀ log ∈ first :: rest, ∃ event, readAdded abi log = .ok event := fun log hlog =>
        hread log ((SortSlice.merge.perm rows).mem_iff.mp (hsort ▸ hlog))
      rw [← hsame sort .merge rows (.refl rows), assemblePaths, hsort]
      dsimp only
      rw [collectPaths_eq hchain]
      rfl

/-- An event of extension one that adds the paths of `data` to list three. -/
def addedAt (blockNumber : UInt64) (data : Bytes) : Log :=
  ⟨9, ⟨2, 1, 3, 0⟩, data, blockNumber, 0, blockNumber, none⟩

/-- The indexer returns the newest event first; the paths of the older one
lead the list. -/
theorem path_order_of_two :
    ([addedAt 8 [6], addedAt 5 [4, 4]].map place).Nodup ∧
    assemblePaths plainABI .merge [addedAt 8 [6], addedAt 5 [4, 4]] =
      .ok ([⟨[4], []⟩, ⟨[4], []⟩, ⟨[6], []⟩], 5) := by
  have hdistinct : ([addedAt 8 [6], addedAt 5 [4, 4]].map place).Nodup := by decide
  obtain ⟨hsame, -, -⟩ := path_order_canonical plainABI [addedAt 8 [6], addedAt 5 [4, 4]] hdistinct
  have hsorted : SortSlice.merge.sort [addedAt 5 [4, 4], addedAt 8 [6]] = [addedAt 5 [4, 4], addedAt 8 [6]] :=
    List.mergeSort_of_pairwise (by decide)
  refine ⟨hdistinct, ?_⟩
  rw [← hsame .merge .merge [addedAt 5 [4, 4], addedAt 8 [6]] (.swap ..), assemblePaths, hsorted]
  rfl

end TeeProxy.MachinePath
