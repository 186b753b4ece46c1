/-
Collecting the governance signatures of a machine path list
(`collectSignatures` of `pkg/machinepath/machinepath.go`).

The signatures are calldata of anyone's transactions to the manager. Those
that failed on chain, that cannot be read, that are for another list or that
recover to nobody are passed over, and so is every one after the first of a
signer. What is returned is a function of what the transactions endorse:
nothing else in the window can change it, and nothing makes it an error.
-/
import TeeProxy.Policy.Signatures

namespace TeeProxy.MachinePath

open Indexer (TxRow TxParams DB txRows)
open Policy (Signature hashBytes)

/-- What the collection calls of the manager's ABI and of tee-node. `unpack`
is `signMachinePathListArgs.Unpack` and `Copy`; the numbers are uint256. -/
structure SignPkg where
  signMachinePathListSel : BitVec 32
  unpack : Bytes → Except PkgErr (Nat × Nat × Signature)
  signatureToSignersAddress : Bytes → Bytes → Except PkgErr Address

def txSuccessStatus : UInt64 := 1

/-- The errors of `recoverSignMachinePathListInputs`. -/
inductive InputErr
  | decoding (e : Hex.DecodeErr)
  | invalidInputs
  | package (e : PkgErr)
  deriving DecidableEq, Repr

/-- `[R||S||V-27]`, of a signature with the fields of the registry's. -/
def serializeSig (s : Signature) : Bytes := Policy.serializeSig s

/-- The arguments of a collection besides its database. -/
structure Query where
  managerAddress : Address
  extensionID : Hash
  nonce : UInt64
  hash : Hash
  fromBlock : Int64
  toBlock : Int64

/-- `sigs` and `seen`. -/
structure Collected where
  sigs : List Bytes
  seen : GoMap Address Bool

section Code

variable (pkg : SignPkg) (q : Query)

/-- `recoverSignMachinePathListInputs`: the selector is cut off and the rest
unpacked. -/
def recoverSignMachinePathListInputs (input : Bytes) : Except InputErr (Nat × Nat × Signature) :=
  match Hex.decode input with
  | .error e => .error (.decoding e)
  | .ok inputB =>
    if inputB.length < 4 then .error .invalidInputs
    else (pkg.unpack (inputB.drop 4)).mapError .package

/-- The body of the loop over the transactions. -/
def collect (c : Collected) (tx : TxRow) : Collected :=
  if tx.status ≠ txSuccessStatus then c
  else match recoverSignMachinePathListInputs pkg tx.input with
    | .error _ => c
    | .ok (extID, txNonce, sig) =>
      if extID ≠ q.extensionID.toNat ∨ txNonce ≠ q.nonce.toNat then c
      else
        let serialized := serializeSig sig
        match pkg.signatureToSignersAddress (hashBytes q.hash) serialized with
        | .error _ => c
        | .ok signer =>
          if (c.seen.get? signer).getD false then c
          else ⟨c.sigs ++ [serialized], c.seen.set signer true⟩

def collectSignatures (db : DB) : Except PkgErr (List Bytes) := do
  let txs ← db.fetchTransactions ⟨q.managerAddress, pkg.signMachinePathListSel, q.fromBlock, q.toBlock⟩
  pure (txs.foldl (collect pkg q) ⟨[], ∅⟩).sigs

/-! ## What a transaction endorses -/

/-- The transaction is a successful `signMachinePathList` call in the window
for the list, with a signature of `a` of the list's hash. -/
structure Endorses (tx : TxRow) (a : Address) (sig : Bytes) : Prop where
  calls : tx.calls q.managerAddress pkg.signMachinePathListSel = true
  window : q.fromBlock.toInt < tx.block ∧ tx.block ≤ q.toBlock.toInt
  status : tx.status = txSuccessStatus
  inputs : ∃ inputB s, Hex.decode tx.input = .ok inputB ∧ 4 ≤ inputB.length ∧
    pkg.unpack (inputB.drop 4) = .ok (q.extensionID.toNat, q.nonce.toNat, s) ∧ sig = serializeSig s
  recovers : pkg.signatureToSignersAddress (hashBytes q.hash) sig = .ok a

/-- The endorsement of a transaction, if it is one. -/
def endorsement (tx : TxRow) : Option (Address × Bytes) :=
  if tx.calls q.managerAddress pkg.signMachinePathListSel = true ∧
      (q.fromBlock.toInt < tx.block ∧ tx.block ≤ q.toBlock.toInt) ∧ tx.status = txSuccessStatus then
    match recoverSignMachinePathListInputs pkg tx.input with
    | .error _ => none
    | .ok (extID, txNonce, s) =>
      if extID = q.extensionID.toNat ∧ txNonce = q.nonce.toNat then
        (pkg.signatureToSignersAddress (hashBytes q.hash) (serializeSig s)).toOption.map (·, serializeSig s)
      else none
  else none

/-- The endorsements of a table, the first of each signer. -/
def endorsements (transactions : List TxRow) : List (Address × Bytes) :=
  Scan.firsts Prod.fst (transactions.filterMap (endorsement pkg q))

/-- The transaction endorses nothing, or for a signer who has endorsed the list
before it: it failed, is outside the window or a call of something else, is not
hex, too short or not readable as the call's inputs, is for another list, or
its signature does not recover. -/
def Ignored (earlier : List TxRow) (tx : TxRow) : Prop :=
  ∀ a sig, Endorses pkg q tx a sig → ∃ tx' ∈ earlier, ∃ sig', Endorses pkg q tx' a sig'

/-- A table with one more transaction that is ignored where it stands. -/
inductive Inserted : List TxRow → List TxRow → Prop
  | insert {earlier later : List TxRow} {tx : TxRow} (h : Ignored pkg q earlier tx) :
      Inserted (earlier ++ later) (earlier ++ tx :: later)

end Code

section Endorsements

variable {pkg : SignPkg} {q : Query} {tx : TxRow} {a : Address} {sig : Bytes} {table table' : List TxRow}

theorem recoverSignMachinePathListInputs_ok_iff {input : Bytes} {r : Nat × Nat × Signature} :
    recoverSignMachinePathListInputs pkg input = .ok r ↔
      ∃ inputB, Hex.decode input = .ok inputB ∧ 4 ≤ inputB.length ∧ pkg.unpack (inputB.drop 4) = .ok r := by
  unfold recoverSignMachinePathListInputs
  cases hdec : Hex.decode input with
  | error e => simp
  | ok inputB =>
    by_cases hlen : inputB.length < 4
    · simp [hlen, Nat.not_le.mpr hlen]
    · simp [hlen, Nat.not_lt.mp hlen, Except.mapError_ok_iff]

theorem endorsement_eq_some_iff : endorsement pkg q tx = some (a, sig) ↔ Endorses pkg q tx a sig := by
  unfold endorsement
  constructor
  · intro h
    split at h
    next hrow =>
      split at h
      next => cases h
      next extID txNonce s hin =>
        split at h
        next hids =>
          obtain ⟨rfl, rfl⟩ := hids
          obtain ⟨inputB, hdec, hlen, hun⟩ := recoverSignMachinePathListInputs_ok_iff.mp hin
          obtain ⟨b, hb, heq⟩ := Option.map_eq_some_iff.mp h
          cases heq
          exact ⟨hrow.1, hrow.2.1, hrow.2.2, ⟨inputB, s, hdec, hlen, hun, rfl⟩, Except.toOption_eq_some_iff.mp hb⟩
        next => cases h
    next => cases h
  · rintro ⟨hcalls, hwindow, hstatus, ⟨inputB, s, hdec, hlen, hun, rfl⟩, hrec⟩
    rw [if_pos ⟨hcalls, hwindow, hstatus⟩, recoverSignMachinePathListInputs_ok_iff.mpr ⟨inputB, hdec, hlen, hun⟩]
    simp [hrec, Except.toOption]

theorem mem_filterMap_endorsement : a ∈ (table.filterMap (endorsement pkg q)).map Prod.fst ↔
    ∃ tx ∈ table, ∃ sig, Endorses pkg q tx a sig := by
  simp only [List.mem_map, List.mem_filterMap, Prod.exists, exists_and_right, exists_eq_right]
  constructor
  · rintro ⟨sig, tx, htx, he⟩
    exact ⟨tx, htx, sig, endorsement_eq_some_iff.mp he⟩
  · rintro ⟨tx, htx, sig, he⟩
    exact ⟨sig, tx, htx, endorsement_eq_some_iff.mpr he⟩

/-- One more signature, if its signer is new. -/
def Collected.add (c : Collected) (e : Address × Bytes) : Collected :=
  if (c.seen.get? e.1).getD false then c else ⟨c.sigs ++ [e.2], c.seen.set e.1 true⟩

/-- **One transaction** of the window adds its endorsement. -/
theorem collect_eq (hcalls : tx.calls q.managerAddress pkg.signMachinePathListSel = true)
    (hwindow : q.fromBlock.toInt < tx.block ∧ tx.block ≤ q.toBlock.toInt) (c : Collected) :
    collect pkg q c tx = (endorsement pkg q tx).elim c c.add := by
  unfold collect endorsement
  by_cases hstatus : tx.status = txSuccessStatus
  · rw [if_neg (by simp [hstatus]), if_pos ⟨hcalls, hwindow, hstatus⟩]
    cases recoverSignMachinePathListInputs pkg tx.input with
    | error e => rfl
    | ok inputs =>
      obtain ⟨extID, txNonce, s⟩ := inputs
      dsimp only
      by_cases hids : extID = q.extensionID.toNat ∧ txNonce = q.nonce.toNat
      · rw [if_neg (by simp [hids.1, hids.2]), if_pos hids]
        cases pkg.signatureToSignersAddress (hashBytes q.hash) (serializeSig s) with
        | error e => rfl
        | ok signer => rfl
      · rw [if_pos (by rwa [← not_and_or]), if_neg hids]
        rfl
  · rw [if_pos hstatus, if_neg fun h => hstatus h.2.2]
    rfl

/-- The loop over the window adds the endorsements of the table. -/
theorem foldl_collect (table : List TxRow) (c : Collected) :
    (txRows table ⟨q.managerAddress, pkg.signMachinePathListSel, q.fromBlock, q.toBlock⟩).foldl (collect pkg q) c =
      (table.filterMap (endorsement pkg q)).foldl Collected.add c := by
  induction table generalizing c with
  | nil => rfl
  | cons tx table ih =>
    rw [Indexer.txRows_cons]
    split
    next hrow =>
      rw [List.foldl_cons, ih, collect_eq hrow.1 hrow.2]
      cases he : endorsement pkg q tx with
      | none => rw [List.filterMap_cons_none he]; rfl
      | some e => rw [List.filterMap_cons_some he]; rfl
    next hrow =>
      have hnone : endorsement pkg q tx = none := if_neg fun h => hrow ⟨h.1, h.2.1⟩
      rw [List.filterMap_cons_none hnone, ih]

/-- What has been collected from endorsements. -/
structure Gathered (es : List (Address × Bytes)) (c : Collected) : Prop where
  sigs : c.sigs = (Scan.firsts Prod.fst es).map Prod.snd
  seen : ∀ a, (c.seen.get? a).getD false = true ↔ a ∈ es.map Prod.fst

theorem Gathered.add {es : List (Address × Bytes)} {c : Collected} (h : Gathered es c) (e : Address × Bytes) :
    Gathered (es ++ [e]) (c.add e) := by
  unfold Collected.add
  split
  next hseen =>
    have hmem := (h.seen e.1).mp hseen
    refine ⟨by rw [Scan.firsts_concat, if_pos hmem, h.sigs], fun a => ?_⟩
    rw [h.seen, List.map_append, List.mem_append]
    refine ⟨.inl, fun ha => ha.elim id fun ha => ?_⟩
    rwa [List.mem_singleton.mp ha]
  next hnew =>
    have hmem : e.1 ∉ es.map Prod.fst := fun he => hnew ((h.seen e.1).mpr he)
    refine ⟨by rw [Scan.firsts_concat, if_neg hmem, List.map_append, h.sigs]; rfl, fun a => ?_⟩
    rw [GoMap.get?_set, List.map_append, List.mem_append, List.map_singleton, List.mem_singleton, ← h.seen]
    split
    next ha => simp [ha]
    next ha => simp [ha]

theorem gathered_foldl (es : List (Address × Bytes)) : Gathered es (es.foldl Collected.add ⟨[], ∅⟩) := by
  induction es using List.reverseRecOn with
  | nil => exact ⟨rfl, fun a => by simp⟩
  | append_singleton es e ih =>
    rw [List.foldl_append, List.foldl_cons, List.foldl_nil]
    exact ih.add e

theorem length_serializeSig (s : Signature) : (serializeSig s).length = 65 := by
  simp [serializeSig, Policy.serializeSig, hashBytes]

theorem Inserted.endorsements_eq (h : Inserted pkg q table table') :
    endorsements pkg q table' = endorsements pkg q table := by
  obtain ⟨hignored⟩ := h
  rename_i earlier later tx
  unfold endorsements
  rw [List.filterMap_append, List.filterMap_append]
  cases he : endorsement pkg q tx with
  | none => rw [List.filterMap_cons_none he]
  | some e =>
    rw [List.filterMap_cons_some he]
    exact Scan.firsts_skip (mem_filterMap_endorsement.mpr (hignored e.1 e.2 (endorsement_eq_some_iff.mp he)))

theorem endorsements_of_inserted (h : Relation.ReflTransGen (Inserted pkg q) table table') :
    endorsements pkg q table' = endorsements pkg q table := by
  induction h with
  | refl => rfl
  | tail _ hlast ih => exact hlast.endorsements_eq.trans ih

theorem collectSignatures_eq {db : DB} {rows : List TxRow}
    (h : db.fetchTransactions ⟨q.managerAddress, pkg.signMachinePathListSel, q.fromBlock, q.toBlock⟩ = .ok rows) :
    collectSignatures pkg q db = .ok ((endorsements pkg q db.transactions).map Prod.snd) := by
  unfold collectSignatures
  rw [h, db.fetchTransactions_ok h]
  change Except.ok _ = _
  rw [foldl_collect, (gathered_foldl _).sigs]
  rfl

/-- **Noise is ignored.** Where the query is answered, the collection returns
one signature of 65 bytes for each address that a transaction of the window
endorses the list for, that of its first endorsement, in the order of the
first endorsements; and transactions inserted anywhere that endorse nothing
there do not change it. -/
theorem noise_ignored (pkg : SignPkg) (q : Query) (db : DB)
    (h : ∃ rows, db.fetchTransactions ⟨q.managerAddress, pkg.signMachinePathListSel, q.fromBlock, q.toBlock⟩ =
      .ok rows) :
    collectSignatures pkg q db = .ok ((endorsements pkg q db.transactions).map Prod.snd) ∧
    (∀ tx a sig, endorsement pkg q tx = some (a, sig) ↔ Endorses pkg q tx a sig) ∧
    ((endorsements pkg q db.transactions).map Prod.fst).Nodup ∧
    (∀ a, a ∈ (endorsements pkg q db.transactions).map Prod.fst ↔
      ∃ tx ∈ db.transactions, ∃ sig, Endorses pkg q tx a sig) ∧
    (∀ e ∈ endorsements pkg q db.transactions, e.2.length = 65) ∧
    ∀ db' : DB, Relation.ReflTransGen (Inserted pkg q) db.transactions db'.transactions →
      (∃ rows, db'.fetchTransactions ⟨q.managerAddress, pkg.signMachinePathListSel, q.fromBlock, q.toBlock⟩ =
        .ok rows) →
      collectSignatures pkg q db' = collectSignatures pkg q db := by
  obtain ⟨rows, hrows⟩ := h
  refine ⟨collectSignatures_eq hrows, fun _ _ _ => endorsement_eq_some_iff, Scan.nodup_map_firsts, fun a => ?_,
    fun e he => ?_, fun db' hins h' => ?_⟩
  · rw [endorsements, Scan.mem_map_firsts, mem_filterMap_endorsement]
  · obtain ⟨tx, -, htx⟩ := List.mem_filterMap.mp (Scan.mem_of_mem_firsts he)
    obtain ⟨-, -, -, ⟨_, s, -, -, -, hsig⟩, -⟩ := endorsement_eq_some_iff.mp htx
    rw [hsig, length_serializeSig]
  · obtain ⟨rows', hrows'⟩ := h'
    rw [collectSignatures_eq hrows, collectSignatures_eq hrows', endorsements_of_inserted hins]

end Endorsements

/-- Inputs are three bytes, an extension, a nonce and a `V`; a signature
recovers to its `V-27`, if that is a recovery ID. -/
def SignPkg.bytewise : SignPkg where
  signMachinePathListSel := 1
  unpack b := match b with
    | [extID, nonce, v] => .ok (extID.toNat, nonce.toNat, ⟨v, 0, 0⟩)
    | _ => .error "inputs"
  signatureToSignersAddress _ sig :=
    if sig.getLastD 0 < 4 then .ok (.ofNat 160 (sig.getLastD 0).toNat) else .error "invalid recovery id"

/-- The list 3 of extension 2, in the blocks from 11 to 20. -/
def listThree : Query := ⟨9, 2, 3, 7, 10, 20⟩

/-- A transaction that signs a list. -/
def signedList (block : UInt64) (status : UInt64) (extID nonce v : UInt8) : TxRow :=
  ⟨⟨9, 1, block, [0, 0, 0, 0, extID, nonce, v].flatMap Policy.hexOf⟩, "", status⟩

/-- Signatures of 1 and 2, before and after a failed one, one whose `V-27`
wraps to 234 and a second one of 1. -/
theorem noise_ignored_listThree :
    collectSignatures .bytewise listThree (.of [] [signedList 11 1 2 3 28, signedList 12 0 2 3 30,
        signedList 12 1 2 3 5, signedList 13 1 2 3 29, signedList 14 1 2 3 28]) =
      collectSignatures .bytewise listThree (.of [] [signedList 11 1 2 3 28, signedList 13 1 2 3 29]) ∧
    collectSignatures .bytewise listThree (.of [] [signedList 11 1 2 3 28, signedList 13 1 2 3 29]) =
      .ok [serializeSig ⟨28, 0, 0⟩, serializeSig ⟨29, 0, 0⟩] := by
  have hnone : ∀ {earlier : List TxRow} {tx : TxRow}, endorsement .bytewise listThree tx = none →
      Ignored .bytewise listThree earlier tx := by
    intro earlier tx hn a sig he
    rw [endorsement_eq_some_iff.mpr he] at hn
    cases hn
  have hfirst : Endorses .bytewise listThree (signedList 11 1 2 3 28) 1 (serializeSig ⟨28, 0, 0⟩) :=
    endorsement_eq_some_iff.mp (by decide +kernel)
  have hrepeat : Ignored .bytewise listThree [signedList 11 1 2 3 28, signedList 13 1 2 3 29]
      (signedList 14 1 2 3 28) := by
    intro a sig he
    have hsame : some (a, sig) = some (1, serializeSig ⟨28, 0, 0⟩) :=
      (endorsement_eq_some_iff.mpr he).symm.trans (by decide +kernel)
    cases hsame
    exact ⟨_, List.mem_cons_self, _, hfirst⟩
  refine ⟨(noise_ignored _ _ (.of [] [signedList 11 1 2 3 28, signedList 13 1 2 3 29]) ⟨_, rfl⟩).2.2.2.2.2 _ ?_
    ⟨_, rfl⟩, by decide +kernel⟩
  have hfailed : Ignored .bytewise listThree [signedList 11 1 2 3 28] (signedList 12 0 2 3 30) :=
    hnone (by decide +kernel)
  have hwraps : Ignored .bytewise listThree [signedList 11 1 2 3 28] (signedList 12 1 2 3 5) :=
    hnone (by decide +kernel)
  exact .tail (.tail (.tail .refl (@Inserted.insert _ _ [_, _] [] _ hrepeat))
    (@Inserted.insert _ _ [_] [_, _] _ hwraps))
    (@Inserted.insert _ _ [_] [_, _, _] _ hfailed)

end TeeProxy.MachinePath
