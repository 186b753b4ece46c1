/-
The windows of a collection amount to one pass.

Each successful poll reads the calls above the block the last one read up to,
and a failed poll leaves that block where it is. With an indexer that is
complete up to the block it reports, and reports blocks that do not go back,
the windows put together are the history from the start block on: nothing is
skipped and nothing read twice. So the tally is the tally of one pass, calls
that count for nothing can be inserted anywhere, and only failures in a row
end a collection early.

A reported block of 2^63 or more is negative as an `int64`. Such a window is
empty, and so are all after it: the pass stops there, and nothing is misread.
-/
import TeeProxy.Policy.Signatures

namespace TeeProxy.Policy

open Indexer (Transaction toInt_toInt64_of_lt)
open Scan (Flow loop window)

/-! ## The pass and the windows -/

section Windows

variable {Value PublicKey : Type} (pkg : SignaturePkg Value PublicKey) (c : Collection)

/-- The calls a collection is about. -/
def callsOf (history : List Transaction) : List Transaction :=
  history.filter (Transaction.calls c.flareSystemsManagerAddress pkg.signNewSigningPolicySel)

/-- The calls above the start block and up to a block. -/
def upTo (history : List Transaction) (block : Int) : List Transaction :=
  window Transaction.block c.startBlock.toInt block (callsOf pkg c history)

/-- **One pass.** What visiting all calls above the start block, in order,
selects before the threshold is first passed. -/
def onePass (history : List Transaction) : Option (List Signature) :=
  ((loop (visit pkg c) .empty
    ((callsOf pkg c history).filter fun tx => c.startBlock.toInt < tx.block)).result?).map Tally.sigs

/-- A poll adds the window it reads; the block the next one starts above is
kept beside the windows. -/
def readWindow (acc : Int64 × List (List Transaction)) (p : Poll) : Int64 × List (List Transaction) :=
  match p.answer with
  | .error _ => acc
  | .ok (state, table) => (state.index.toInt64, acc.2 ++ [fetchWindow pkg c acc.1 state table])

/-- The windows the polls read, with the block the next one starts above. -/
def readWindows (polls : List Poll) : Int64 × List (List Transaction) :=
  polls.foldl (readWindow pkg c) (c.startBlock, [])

/-- What the polls have seen, window by window. -/
def windows (polls : List Poll) : List (List Transaction) := (readWindows pkg c polls).2

end Windows

/-- The block the indexer reports to a poll. -/
def Poll.index? (p : Poll) : Option Int :=
  match p.state with
  | .error _ => none
  | .ok state => some state.index.toNat

/-- The start block and the blocks the indexer reports. -/
def reports (c : Collection) (polls : List Poll) : List Int := c.startBlock.toInt :: polls.filterMap Poll.index?

/-- A successful poll reads up to the block reported, if that fits an `int64`. -/
def Poll.reach (block : Int) (p : Poll) : Int :=
  match p.answer with
  | .error _ => block
  | .ok (state, _) => if state.index.toNat < 2 ^ 63 then state.index.toNat else block

/-- The block the polls have read up to. -/
def reached (c : Collection) (polls : List Poll) : Int := polls.foldl Poll.reach c.startBlock.toInt

/-- **The indexer of a history.** The history is in block order, the table a
poll reads is complete up to the block reported, and the blocks reported start
at the start block and do not go back. -/
structure Indexed (c : Collection) (history : List Transaction) (polls : List Poll) : Prop where
  sorted : history.Pairwise fun tx tx' => tx.block ≤ tx'.block
  complete : ∀ p ∈ polls, ∀ state table, p.answer = .ok (state, table) →
    (table.filter fun tx => tx.block ≤ (state.index.toNat : Int)) =
      history.filter fun tx => tx.block ≤ (state.index.toNat : Int)
  monotone : (reports c polls).Pairwise (· ≤ ·)

section Reading

variable {Value PublicKey : Type} {pkg : SignaturePkg Value PublicKey} {c : Collection} {history : List Transaction}
  {polls : List Poll} {p : Poll} {state : Indexer.State} {table : List Transaction} {e : PkgErr} {b : Int}

theorem toInt_toInt64_neg {n : UInt64} (h : ¬ n.toNat < 2 ^ 63) : n.toInt64.toInt < 0 := by
  have hn := n.toNat_lt
  change n.toBitVec.toInt < 0
  rw [BitVec.toInt_eq_toNat_cond, if_neg (by change ¬ 2 * n.toNat < 2 ^ 64; omega)]
  change (n.toNat : Int) - (2 ^ 64 : Nat) < 0
  omega

theorem readWindows_error (h : p.answer = .error e) :
    readWindows pkg c (polls ++ [p]) = readWindows pkg c polls := by
  rw [readWindows, List.foldl_append, List.foldl_cons, List.foldl_nil, readWindow, h]
  rfl

theorem readWindows_ok (h : p.answer = .ok (state, table)) :
    readWindows pkg c (polls ++ [p]) = (state.index.toInt64,
      windows pkg c polls ++ [fetchWindow pkg c (readWindows pkg c polls).1 state table]) := by
  rw [readWindows, List.foldl_append, List.foldl_cons, List.foldl_nil, readWindow, h]
  rfl

theorem reached_snoc : reached c (polls ++ [p]) = p.reach (reached c polls) := by
  rw [reached, List.foldl_append]
  rfl

theorem reach_error (h : p.answer = .error e) : p.reach b = b := by
  rw [Poll.reach, h]

theorem reach_ok (h : p.answer = .ok (state, table)) :
    p.reach b = if state.index.toNat < 2 ^ 63 then (state.index.toNat : Int) else b := by
  rw [Poll.reach, h]

theorem reports_snoc : reports c (polls ++ [p]) = reports c polls ++ p.index?.toList := by
  unfold reports
  rw [List.filterMap_append, List.cons_append]
  cases h : p.index? <;> simp [h]

theorem index?_of_answer (h : p.answer = .ok (state, table)) : p.index? = some (state.index.toNat : Int) := by
  rw [Poll.index?, (Poll.answer_ok_iff.mp h).1]

theorem Indexed.init (h : Indexed c history (polls ++ [p])) : Indexed c history polls where
  sorted := h.sorted
  complete q hq := h.complete q (List.mem_append_left _ hq)
  monotone := by
    have := h.monotone
    rw [reports_snoc] at this
    exact (List.pairwise_append.mp this).1

theorem Indexed.le_index (h : Indexed c history (polls ++ [p])) (hp : p.answer = .ok (state, table)) {x : Int}
    (hx : x ∈ reports c polls) : x ≤ state.index.toNat := by
  have := h.monotone
  rw [reports_snoc, index?_of_answer hp] at this
  exact (List.pairwise_append.mp this).2.2 x hx _ (List.mem_singleton.mpr rfl)

theorem reached_mem (c : Collection) (polls : List Poll) : reached c polls ∈ reports c polls := by
  induction polls using List.reverseRecOn with
  | nil => exact List.mem_cons_self
  | append_singleton polls p ih =>
    rw [reached_snoc, reports_snoc]
    cases hp : p.answer with
    | error e =>
      rw [reach_error hp]
      exact List.mem_append_left _ ih
    | ok answer =>
      obtain ⟨state, table⟩ := answer
      rw [reach_ok hp, index?_of_answer hp]
      split
      · exact List.mem_append_right _ (List.mem_singleton.mpr rfl)
      · exact List.mem_append_left _ ih

theorem Indexed.start_le_reached (h : Indexed c history polls) : c.startBlock.toInt ≤ reached c polls := by
  rcases List.mem_cons.mp (reached_mem c polls) with heq | hm
  · exact heq.ge
  · exact (List.pairwise_cons.mp h.monotone).1 _ hm

theorem sorted_callsOf (h : history.Pairwise fun tx tx' => tx.block ≤ tx'.block) :
    (callsOf pkg c history).Pairwise fun tx tx' => tx.block ≤ tx'.block :=
  List.Pairwise.filter _ h

/-- Where the next window starts: at the block reached, or below every block
once a report did not fit. -/
def Positioned (c : Collection) (polls : List Poll) (fromBlock : Int64) : Prop :=
  fromBlock.toInt = reached c polls ∨ fromBlock.toInt < 0 ∧ ∃ i ∈ reports c polls, 2 ^ 63 ≤ i

/-- One window: from where the last one ended to the block now reached. -/
theorem fetchWindow_eq (pkg : SignaturePkg Value PublicKey) (h : Indexed c history (polls ++ [p]))
    (hp : p.answer = .ok (state, table)) {fromBlock : Int64} (hpos : Positioned c polls fromBlock) :
    fetchWindow pkg c fromBlock state table =
      window Transaction.block (reached c polls) (reached c (polls ++ [p])) (callsOf pkg c history) ∧
      Positioned c (polls ++ [p]) state.index.toInt64 := by
  unfold fetchWindow Indexer.fetchTransactions
  rw [reached_snoc, reach_ok hp]
  split
  next hlt =>
    rcases hpos with hpos | ⟨-, i, hi, hbig⟩
    · have hcomplete := h.complete p (by simp) state table hp
      rw [hpos, toInt_toInt64_of_lt hlt]
      refine ⟨Scan.window_filter_congr hcomplete, .inl ?_⟩
      rw [toInt_toInt64_of_lt hlt, reached_snoc, reach_ok hp, if_pos hlt]
    · -- an earlier report that did not fit would be above this one
      have := h.le_index hp hi
      omega
  next hge =>
    have hneg := toInt_toInt64_neg hge
    refine ⟨?_, .inr ⟨hneg, state.index.toNat, ?_, by omega⟩⟩
    · rw [Scan.window_eq_nil fun tx _ _ => ?_, Scan.window_eq_nil fun tx _ hlt => hlt]
      change _ < (tx.blockNumber.toNat : Int)
      have : (0 : Int) ≤ tx.blockNumber.toNat := Int.natCast_nonneg _
      change state.index.toInt64.toInt < _
      omega
    · rw [reports_snoc, index?_of_answer hp]
      exact List.mem_append_right _ (List.mem_singleton.mpr rfl)

/-- **The windows tile the history.** Put together they are the calls above
the start block up to the block reached, each once and in order. -/
theorem Indexed.tile (h : Indexed c history polls) :
    Positioned c polls (readWindows pkg c polls).1 ∧
      (windows pkg c polls).flatten = upTo pkg c history (reached c polls) := by
  induction polls using List.reverseRecOn with
  | nil => exact ⟨.inl rfl, (Scan.window_eq_nil fun _ _ hlt => hlt).symm⟩
  | append_singleton polls p ih =>
    obtain ⟨hpos, hflat⟩ := ih h.init
    cases hp : p.answer with
    | error e =>
      have hreach : reached c (polls ++ [p]) = reached c polls := by rw [reached_snoc, reach_error hp]
      unfold windows
      rw [readWindows_error hp, hreach]
      refine ⟨?_, hflat⟩
      rcases hpos with hpos | ⟨hneg, i, hi, hbig⟩
      · exact .inl (hpos.trans hreach.symm)
      · exact .inr ⟨hneg, i, by rw [reports_snoc]; exact List.mem_append_left _ hi, hbig⟩
    | ok answer =>
      obtain ⟨state, table⟩ := answer
      obtain ⟨hwin, hpos'⟩ := fetchWindow_eq pkg h hp hpos
      unfold windows
      rw [readWindows_ok hp]
      refine ⟨hpos', ?_⟩
      have hle : reached c polls ≤ reached c (polls ++ [p]) := by
        rw [reached_snoc, reach_ok hp]
        split
        · exact h.le_index hp (reached_mem c polls)
        · exact Int.le_refl _
      rw [List.flatten_append, hflat, List.flatten_singleton, hwin]
      exact Scan.window_append (sorted_callsOf h.sorted) h.init.start_le_reached hle

end Reading

/-! ## The tally is that of one pass -/

section Runs

variable {Value PublicKey : Type} {pkg : SignaturePkg Value PublicKey} {c : Collection} {history : List Transaction}
  {polls : List Poll} {p : Poll} {state : Indexer.State} {table : List Transaction} {v : Vars}

/-- The main loop, from its start. -/
def polling (pkg : SignaturePkg Value PublicKey) (c : Collection) (polls : List Poll) :
    Flow Vars (Except CollectErr (List Signature)) :=
  loop (poll pkg c) ⟨c.startBlock, .empty, 0⟩ polls

/-- Between polls, the tally is that of the windows read. -/
theorem polling_next (h : polling pkg c polls = .next v) :
    v.fromBlock = (readWindows pkg c polls).1 ∧
      loop (visit pkg c) .empty (windows pkg c polls).flatten = .next v.tally := by
  refine Scan.loop_inv (P := fun polls v => v.fromBlock = (readWindows pkg c polls).1 ∧
    loop (visit pkg c) .empty (windows pkg c polls).flatten = .next v.tally) ⟨rfl, rfl⟩ ?_ h
  rintro polls p v v' ⟨hfrom, htally⟩ hp
  unfold windows at htally ⊢
  rcases poll_next hp with ⟨e, he, rfl⟩ | ⟨state, table, t, ha, hl, rfl⟩
  · rw [readWindows_error he]
    exact ⟨hfrom, htally⟩
  · rw [readWindows_ok ha]
    refine ⟨rfl, ?_⟩
    rw [List.flatten_append, List.flatten_singleton, Scan.loop_append]
    unfold windows
    rw [htally, ← hfrom]
    exact hl

/-- Visiting the next window from the tally is visiting all windows so far. -/
theorem loop_fetchWindow (h : polling pkg c polls = .next v) (hp : p.answer = .ok (state, table)) :
    loop (visit pkg c) v.tally (fetchWindow pkg c v.fromBlock state table) =
      loop (visit pkg c) .empty (windows pkg c (polls ++ [p])).flatten := by
  obtain ⟨hfrom, htally⟩ := polling_next h
  rw [windows, readWindows_ok hp, List.flatten_append, List.flatten_singleton, Scan.loop_append, htally, ← hfrom]
  rfl

theorem windows_append (pkg : SignaturePkg Value PublicKey) (c : Collection) (polls polls' : List Poll) :
    ∃ later, windows pkg c (polls ++ polls') = windows pkg c polls ++ later := by
  induction polls' using List.reverseRecOn with
  | nil => exact ⟨[], by rw [List.append_nil, List.append_nil]⟩
  | append_singleton polls' p ih =>
    obtain ⟨later, ih⟩ := ih
    rw [← List.append_assoc]
    cases hp : p.answer with
    | error e => exact ⟨later, by rw [windows, readWindows_error hp]; exact ih⟩
    | ok answer =>
      obtain ⟨state, table⟩ := answer
      exact ⟨_, by rw [windows, readWindows_ok hp, ih, List.append_assoc]⟩

/-- Signatures are returned where visiting the windows passes the threshold. -/
theorem polling_leave_ok {sigs : List Signature} (h : polling pkg c polls = .leave (.ok sigs)) :
    ∃ t, loop (visit pkg c) .empty (windows pkg c polls).flatten = .leave t ∧ t.sigs = sigs := by
  obtain ⟨before, p, after, v, rfl, hv, hleave⟩ := Scan.exists_of_loop_leave h
  obtain ⟨state, table, t, ha, hl, hsigs⟩ := poll_leave_ok hleave
  rw [loop_fetchWindow hv ha] at hl
  obtain ⟨later, heq⟩ := windows_append pkg c (before ++ [p]) after
  rw [List.append_assoc, List.singleton_append] at heq
  refine ⟨t, ?_, hsigs⟩
  rw [heq, List.flatten_append]
  exact Scan.loop_leave_append hl

theorem block_lt (tx : Transaction) : tx.block < 2 ^ 64 := by
  have := tx.blockNumber.toNat_lt
  unfold Transaction.block
  omega

/-- A pass up to some block is the first part of the one pass. -/
theorem onePass_of_upTo (hsorted : history.Pairwise fun tx tx' => tx.block ≤ tx'.block) {b : Int}
    (hb : c.startBlock.toInt ≤ b) {t : Tally} (h : loop (visit pkg c) .empty (upTo pkg c history b) = .leave t) :
    onePass pkg c history = some t.sigs := by
  -- every block is below `2^64`, so the pass is over the window that ends there
  have hall : ((callsOf pkg c history).filter fun tx => c.startBlock.toInt < tx.block) =
      upTo pkg c history (max b (2 ^ 64)) := by
    refine List.filter_congr fun tx _ => ?_
    have hlt : tx.block ≤ max b (2 ^ 64) := (block_lt tx).le.trans (le_max_right _ _)
    simp only [hlt, and_true]
  have hsplit : upTo pkg c history (max b (2 ^ 64)) = upTo pkg c history b ++ _ :=
    (Scan.window_append (sorted_callsOf hsorted) hb (le_max_left b _)).symm
  rw [onePass, hall, hsplit, Scan.loop_leave_append h]
  rfl

end Runs

/-! ## Calls that count for nothing -/

/-- A voter whose signature an earlier call of the pass holds. -/
def Seen {Value PublicKey : Type} (pkg : SignaturePkg Value PublicKey) (c : Collection) (earlier : List Transaction)
    (a : Address) : Prop :=
  ∃ tx ∈ callsOf pkg c earlier, c.startBlock.toInt < tx.block ∧ ∃ sig, Endorses pkg c tx a sig

/-- A transaction that counts for nothing after `earlier`: its input is not
hex or not the calldata of the method, it names another epoch or hash, no key
recovers, the signer is no voter or has no weight, or has been seen. -/
inductive Ignorable {Value PublicKey : Type} (pkg : SignaturePkg Value PublicKey) (c : Collection)
    (earlier : List Transaction) (tx : Transaction) : Prop
  | nonHex {e : Hex.DecodeErr} (h : Hex.decode tx.input = .error e)
  | malformed {inputB : Bytes} {e : RecoverErr} (hdec : Hex.decode tx.input = .ok inputB)
      (h : recoverInputsSignNewSigningPolicy pkg inputB = .error e)
  | otherEpoch {inputB : Bytes} {id : UInt32} {hash : Hash} {sig : Signature}
      (hdec : Hex.decode tx.input = .ok inputB)
      (h : recoverInputsSignNewSigningPolicy pkg inputB = .ok (id, hash, sig))
      (hne : id ≠ c.newPolicy.rewardEpochID)
  | otherHash {inputB : Bytes} {id : UInt32} {hash : Hash} {sig : Signature}
      (hdec : Hex.decode tx.input = .ok inputB)
      (h : recoverInputsSignNewSigningPolicy pkg inputB = .ok (id, hash, sig)) (hne : hash ≠ expectedHash pkg c)
  | unrecoverable {inputB : Bytes} {id : UInt32} {hash : Hash} {sig : Signature} {e : PkgErr}
      (hdec : Hex.decode tx.input = .ok inputB)
      (h : recoverInputsSignNewSigningPolicy pkg inputB = .ok (id, hash, sig))
      (hsig : recoverSigner pkg (expectedHash pkg c) sig = .error e)
  | nonVoter {a : Address} {sig : Signature} (h : Endorses pkg c tx a sig)
      (ha : a ∉ c.activePolicy.voters.voters)
  | weightless {a : Address} {sig : Signature} (h : Endorses pkg c tx a sig) (ha : c.activePolicy.weight a = 0)
  | seen {a : Address} {sig : Signature} (h : Endorses pkg c tx a sig) (ha : Seen pkg c earlier a)

/-- A history with one more transaction that counts for nothing where it
stands. -/
inductive Inserted {Value PublicKey : Type} (pkg : SignaturePkg Value PublicKey) (c : Collection) :
    List Transaction → List Transaction → Prop
  | insert {earlier later : List Transaction} {tx : Transaction} (h : Ignorable pkg c earlier tx) :
      Inserted pkg c (earlier ++ later) (earlier ++ tx :: later)

/-- Two polls alike but for the table of transactions. -/
structure Poll.Alike (p p' : Poll) : Prop where
  ctxErr : p'.ctxErr = p.ctxErr
  state : p'.state = p.state
  transactions : p'.transactions.map (fun _ => ()) = p.transactions.map fun _ => ()
  cancelled : p'.cancelled = p.cancelled

section Insertion

variable {Value PublicKey : Type} {pkg : SignaturePkg Value PublicKey} {c : Collection}
  {earlier history history' : List Transaction} {tx : Transaction} {t : Tally} {a : Address} {sig : Signature}
  {b : Int} {polls polls' : List Poll} {p p' : Poll} {v : Vars}

theorem hasVoted_of_visited {txs : List Transaction} (h : loop (visit pkg c) .empty txs = .next t) (hm : tx ∈ txs)
    (he : Endorses pkg c tx a sig) (hw : 0 < c.activePolicy.weight a) : t.hasVoted a = true := by
  have hall : ∀ tx ∈ txs, ∀ a sig, Endorses pkg c tx a sig → 0 < c.activePolicy.weight a → t.hasVoted a = true := by
    refine Scan.loop_inv (P := fun txs t => ∀ tx ∈ txs, ∀ a sig, Endorses pkg c tx a sig →
      0 < c.activePolicy.weight a → t.hasVoted a = true) (by simp) ?_ h
    intro txs tx t t' ih hv tx' hm a sig he hw
    rcases visit_cases pkg c t tx with ⟨hno, heq⟩ | ⟨a', sig', hc, heq⟩
    · rw [hv] at heq
      cases heq
      rcases List.mem_append.mp hm with hm | hm
      · exact ih tx' hm a sig he hw
      · rw [List.mem_singleton.mp hm] at he
        by_contra hvoted
        exact hno a sig ⟨he, hw, Bool.not_eq_true _ ▸ hvoted⟩
    · rw [hv] at heq
      split at heq
      next => cases heq
      cases heq
      rw [hasVoted_count]
      rcases List.mem_append.mp hm with hm | hm
      · exact .inr (ih tx' hm a sig he hw)
      · rw [List.mem_singleton.mp hm] at he
        exact .inl (he.unique hc.endorses).1
  exact hall tx hm a sig he hw

/-- What counts for nothing changes nothing, once the pass is past what was
seen. -/
theorem Ignorable.visit_eq (h : Ignorable pkg c earlier tx)
    (hseen : ∀ a, Seen pkg c earlier a → 0 < c.activePolicy.weight a → t.hasVoted a = true) :
    visit pkg c t tx = .next t := by
  refine visit_of_not_counts fun a sig hc => ?_
  obtain ⟨signer, hx, -⟩ := hc.endorses
  obtain ⟨inputB', hdec', hrec', hsigner⟩ := checkAndExtract_ok_iff.mp hx
  cases h with
  | nonHex h => rw [h] at hdec'; cases hdec'
  | malformed hdec h => rw [hdec] at hdec'; cases hdec'; rw [h] at hrec'; cases hrec'
  | otherEpoch hdec h hne => rw [hdec] at hdec'; cases hdec'; rw [h] at hrec'; cases hrec'; exact hne rfl
  | otherHash hdec h hne => rw [hdec] at hdec'; cases hdec'; rw [h] at hrec'; cases hrec'; exact hne rfl
  | unrecoverable hdec h hsig =>
    rw [hdec] at hdec'; cases hdec'; rw [h] at hrec'; cases hrec'; rw [hsig] at hsigner; cases hsigner
  | nonVoter h ha =>
    obtain ⟨rfl, -⟩ := h.unique hc.endorses
    exact ha (mem_voters_of_weight_pos hc.weight_pos)
  | weightless h ha =>
    obtain ⟨rfl, -⟩ := h.unique hc.endorses
    exact absurd ha (Nat.pos_iff_ne_zero.mp hc.weight_pos)
  | seen h ha =>
    obtain ⟨rfl, -⟩ := h.unique hc.endorses
    have := hseen _ ha hc.weight_pos
    rw [hc.not_voted] at this
    cases this

theorem upTo_append {txs txs' : List Transaction} :
    upTo pkg c (txs ++ txs') b = upTo pkg c txs b ++ upTo pkg c txs' b := by
  unfold upTo callsOf window
  rw [List.filter_append, List.filter_append]

/-- **An insertion.** A pass up to any block comes to the same. -/
theorem Inserted.loop_upTo (h : Inserted pkg c history history')
    (hsorted : history'.Pairwise fun tx tx' => tx.block ≤ tx'.block) (b : Int) :
    loop (visit pkg c) .empty (upTo pkg c history' b) = loop (visit pkg c) .empty (upTo pkg c history b) := by
  obtain @⟨earlier, later, tx, hig⟩ := h
  have hcons : upTo pkg c (tx :: later) b = upTo pkg c [tx] b ++ upTo pkg c later b := by
    rw [← upTo_append, List.singleton_append]
  rw [upTo_append, upTo_append, hcons]
  by_cases hin : tx ∈ upTo pkg c [tx] b
  · have hone : upTo pkg c [tx] b = [tx] := by
      unfold upTo callsOf window at hin ⊢
      rw [List.filter_filter] at hin ⊢
      exact List.filter_eq_self.mpr fun x hx => List.mem_singleton.mp hx ▸ (List.mem_filter.mp hin).2
    rw [hone, List.singleton_append]
    refine Scan.loop_skip fun t ht => hig.visit_eq ?_
    rintro a ⟨tx', hcall, habove, sig, he⟩ hw
    -- what was seen stands before `tx`, so the pass up to the same block has visited it
    have hle : tx'.block ≤ tx.block :=
      (List.pairwise_append.mp hsorted).2.2 tx' (List.mem_of_mem_filter hcall) tx List.mem_cons_self
    have hb : tx.block ≤ b := (of_decide_eq_true (List.mem_filter.mp hin).2).2
    have hmem : tx' ∈ upTo pkg c earlier b :=
      List.mem_filter.mpr ⟨hcall, decide_eq_true ⟨habove, hle.trans hb⟩⟩
    exact hasVoted_of_visited ht hmem he hw
  · have hnone : upTo pkg c [tx] b = [] := by
      refine List.eq_nil_iff_forall_not_mem.mpr fun x hx => ?_
      have : x ∈ [tx] := List.mem_of_mem_filter (List.mem_of_mem_filter hx)
      rw [List.mem_singleton.mp this] at hx
      exact hin hx
    rw [hnone, List.nil_append]

theorem Inserted.sublist (h : Inserted pkg c history history') : history.Sublist history' := by
  cases h with
  | insert _ => exact List.Sublist.append_left (List.sublist_cons_self _ _) _

theorem loop_upTo_of_inserted (h : Relation.ReflTransGen (Inserted pkg c) history history')
    (hsorted : history'.Pairwise fun tx tx' => tx.block ≤ tx'.block) (b : Int) :
    loop (visit pkg c) .empty (upTo pkg c history' b) = loop (visit pkg c) .empty (upTo pkg c history b) := by
  induction h with
  | refl => rfl
  | tail _ hins ih => rw [hins.loop_upTo hsorted, ih (hsorted.sublist hins.sublist)]

/-- The second of two polls alike fails with the first, or finds another
table with the same report. -/
theorem Poll.Alike.cases (h : p.Alike p') :
    (∃ e, p.transactions = .error e ∧ p'.transactions = .error e) ∨
      ∃ table table', p.transactions = .ok table ∧ p'.transactions = .ok table' := by
  have ht := h.transactions
  cases hp : p.transactions with
  | error e =>
    cases hp' : p'.transactions with
    | error e' => rw [hp, hp'] at ht; cases ht; exact .inl ⟨e, rfl, rfl⟩
    | ok table' => rw [hp, hp'] at ht; cases ht
  | ok table =>
    cases hp' : p'.transactions with
    | error e' => rw [hp, hp'] at ht; cases ht
    | ok table' => exact .inr ⟨table, table', rfl, rfl⟩

theorem reach_alike (h : p.Alike p') : p'.reach b = p.reach b := by
  unfold Poll.reach Poll.answer
  rw [h.state]
  cases p.state with
  | error e => rfl
  | ok state =>
    rcases h.cases with ⟨e, he, he'⟩ | ⟨table, table', ht, ht'⟩
    · rw [he, he']
    · rw [ht, ht']; rfl

/-- Polls alike do alike if visiting their windows does. -/
theorem poll_alike (h : p.Alike p')
    (hwin : ∀ state table table', p.answer = .ok (state, table) → p'.answer = .ok (state, table') →
      loop (visit pkg c) v.tally (fetchWindow pkg c v.fromBlock state table') =
        loop (visit pkg c) v.tally (fetchWindow pkg c v.fromBlock state table)) :
    poll pkg c v p' = poll pkg c v p := by
  unfold poll
  rw [h.ctxErr, h.cancelled, h.state]
  split
  next => rfl
  split
  next => rfl
  next state hs =>
  split
  next => rfl
  rcases h.cases with ⟨e, he, he'⟩ | ⟨table, table', ht, ht'⟩
  · rw [he, he']
  · rw [ht, ht']
    simp only [hwin state table table' (Poll.answer_ok_iff.mpr ⟨hs, ht⟩)
      (Poll.answer_ok_iff.mpr ⟨h.state.trans hs, ht'⟩)]

theorem reached_alike (h : List.Forall₂ Poll.Alike polls polls') : reached c polls' = reached c polls := by
  unfold reached
  generalize c.startBlock.toInt = b
  induction h generalizing b with
  | nil => rfl
  | cons hp _ ih => rw [List.foldl_cons, List.foldl_cons, reach_alike hp, ih]

/-- **Lockstep.** Two collections whose polls are alike, over histories that
are the same to a pass, go the same way. -/
theorem polling_alike (hpass : ∀ b, loop (visit pkg c) .empty (upTo pkg c history' b) =
      loop (visit pkg c) .empty (upTo pkg c history b))
    (halike : List.Forall₂ Poll.Alike polls polls') (h : Indexed c history polls) (h' : Indexed c history' polls') :
    polling pkg c polls' = polling pkg c polls := by
  induction polls using List.reverseRecOn generalizing polls' with
  | nil => cases halike; rfl
  | append_singleton polls p ih =>
    obtain ⟨polls', p', rfl, halike', hp⟩ := Scan.forall₂_snoc_left halike
    have hinit := ih halike' h.init h'.init
    unfold polling at hinit ⊢
    rw [Scan.loop_snoc, Scan.loop_snoc, hinit]
    cases hv : loop (poll pkg c) ⟨c.startBlock, .empty, 0⟩ polls with
    | leave r => rfl
    | next v =>
      refine poll_alike hp fun state table table' ha ha' => ?_
      rw [loop_fetchWindow hv ha, loop_fetchWindow (hinit.trans hv) ha', h.tile.2, h'.tile.2, hpass,
        reached_alike halike]

end Insertion

/-! ## Failures in a row -/

/-- One of the poll's queries failed. -/
def Poll.failed (p : Poll) : Bool := !p.answer.isOk

/-- The failed polls at the end of a list. -/
def failures (polls : List Poll) : Nat := (polls.reverse.takeWhile Poll.failed).length

/-- At no point have as many polls failed in a row as end a collection. -/
def Quiet (polls : List Poll) : Prop := ∀ before, before <+: polls → failures before < maxAllowedConsecutiveErrors

/-- A poll with the context not cancelled and the deadline not passed. -/
structure Undisturbed (c : Collection) (p : Poll) : Prop where
  ctxErr : p.ctxErr = none
  cancelled : p.cancelled = none
  deadline : ∀ state, p.state = .ok state → state.blockTimestamp ≤ c.deadline

section Failures

variable {Value PublicKey : Type} {pkg : SignaturePkg Value PublicKey} {c : Collection} {history : List Transaction}
  {polls : List Poll} {p : Poll} {v : Vars} {e : PkgErr}

theorem failures_snoc_error (h : p.answer = .error e) : failures (polls ++ [p]) = failures polls + 1 := by
  have hf : p.failed = true := by rw [Poll.failed, h]; rfl
  rw [failures, List.reverse_append, List.reverse_singleton, List.singleton_append, List.takeWhile_cons, if_pos hf,
    List.length_cons]
  rfl

theorem failures_snoc_ok {answer : Indexer.State × List Transaction} (h : p.answer = .ok answer) :
    failures (polls ++ [p]) = 0 := by
  have hf : ¬ p.failed = true := by rw [Poll.failed, h]; exact Bool.false_ne_true
  rw [failures, List.reverse_append, List.reverse_singleton, List.singleton_append, List.takeWhile_cons, if_neg hf]
  rfl

theorem Quiet.snoc (h : Quiet polls) (hlt : failures (polls ++ [p]) < maxAllowedConsecutiveErrors) :
    Quiet (polls ++ [p]) := by
  intro before hb
  rcases List.prefix_concat_iff.mp hb with rfl | hb
  · exact hlt
  · exact h before hb

theorem Quiet.init (h : Quiet (polls ++ [p])) : Quiet polls :=
  fun before hb => h before (hb.trans (List.prefix_append _ _))

/-- A poll with nothing in its way retries if a query failed, and otherwise
returns signatures or goes on with no failure counted. -/
theorem poll_of_undisturbed (pkg : SignaturePkg Value PublicKey) (h : Undisturbed c p) (v : Vars) :
    (∃ e, p.answer = .error e ∧ poll pkg c v p = retry v e) ∨
      ∃ answer, p.answer = .ok answer ∧
        ((∃ sigs, poll pkg c v p = .leave (.ok sigs)) ∨
          ∃ v', poll pkg c v p = .next v' ∧ v'.errCount = 0) := by
  have hp := polled pkg c v p
  generalize poll pkg c v p = x at hp
  cases hp with
  | done he => rw [h.ctxErr] at he; cases he
  | retried he hlt => exact .inl ⟨_, he, (if_pos hlt).symm⟩
  | gaveUp he hge => exact .inl ⟨_, he, (if_neg hge).symm⟩
  | late hs hd => exact absurd hd (UInt64.not_lt.mpr (h.deadline _ hs))
  | passed ha hl => exact .inr ⟨_, ha, .inl ⟨_, rfl⟩⟩
  | interrupted he => rw [h.cancelled] at he; cases he
  | read ha hl => exact .inr ⟨_, ha, .inr ⟨_, rfl, rfl⟩⟩

/-- **How a collection ends**, with nothing in its way: it polls on while no
failures end it, or has returned signatures, or has met too many failures in a
row. -/
theorem polling_cases (pkg : SignaturePkg Value PublicKey) (h : ∀ p ∈ polls, Undisturbed c p) :
    (∃ v, polling pkg c polls = .next v ∧ v.errCount = failures polls ∧ Quiet polls) ∨
      (∃ sigs, polling pkg c polls = .leave (.ok sigs)) ∨
      ∃ e, polling pkg c polls = .leave (.error (.tooManyErrors e)) ∧ ¬ Quiet polls := by
  induction polls using List.reverseRecOn with
  | nil =>
    refine .inl ⟨_, rfl, rfl, fun before hb => ?_⟩
    rw [List.prefix_nil.mp hb]
    decide
  | append_singleton polls p ih =>
    unfold polling at ih ⊢
    rw [Scan.loop_snoc]
    rcases ih fun q hq => h q (List.mem_append_left _ hq) with ⟨v, hv, hcount, hquiet⟩ | ⟨sigs, hv⟩ | ⟨e, hv, hnot⟩
    · rw [hv, Flow.andThen_next]
      rcases poll_of_undisturbed pkg (h p (by simp)) v with
        ⟨e, he, hp⟩ | ⟨answer, ha, ⟨sigs, hp⟩ | ⟨v', hp, h0⟩⟩
      · have hfail : failures (polls ++ [p]) = v.errCount + 1 := by rw [failures_snoc_error he, hcount]
        rw [hp]
        by_cases hlt : v.errCount + 1 < maxAllowedConsecutiveErrors
        · exact .inl ⟨_, if_pos hlt, hfail.symm, hquiet.snoc (hfail ▸ hlt)⟩
        · refine .inr (.inr ⟨e, if_neg hlt, fun hq => hlt ?_⟩)
          rw [← hfail]
          exact hq _ (List.prefix_refl _)
      · exact .inr (.inl ⟨sigs, hp⟩)
      · have hfail : failures (polls ++ [p]) = 0 := failures_snoc_ok ha
        exact .inl ⟨v', hp, h0.trans hfail.symm, hquiet.snoc (by rw [hfail]; decide)⟩
    · exact .inr (.inl ⟨sigs, by rw [hv, Flow.andThen_leave]⟩)
    · exact .inr (.inr ⟨e, by rw [hv, Flow.andThen_leave], fun hq => hnot hq.init⟩)

/-- **Too many errors.** A collection that is still polling gives up at a
poll exactly if that poll is the first to make up the number of failures in a
row, with the error of that poll. -/
theorem tooManyErrors_iff (pkg : SignaturePkg Value PublicKey) (h : ∀ q ∈ polls ++ [p], Undisturbed c q) :
    (∃ v, polling pkg c polls = .next v) ∧
        polling pkg c (polls ++ [p]) = .leave (.error (.tooManyErrors e)) ↔
      (∀ sigs, polling pkg c polls ≠ .leave (.ok sigs)) ∧ Quiet polls ∧
        failures (polls ++ [p]) = maxAllowedConsecutiveErrors ∧ p.answer = .error e := by
  have hbefore := polling_cases pkg fun q hq => h q (List.mem_append_left _ hq)
  have hsnoc : polling pkg c (polls ++ [p]) = (polling pkg c polls).andThen fun v => poll pkg c v p :=
    Scan.loop_snoc
  constructor
  · rintro ⟨⟨v, hv⟩, hleave⟩
    rcases hbefore with ⟨v', hv', hcount, hquiet⟩ | ⟨sigs, hv'⟩ | ⟨e', hv', -⟩
    rotate_left
    · rw [hv] at hv'; cases hv'
    · rw [hv] at hv'; cases hv'
    rw [hv] at hv'
    cases hv'
    rw [hsnoc, hv, Flow.andThen_next] at hleave
    refine ⟨fun sigs hs => ?_, hquiet, ?_⟩
    · rw [hv] at hs; cases hs
    have hp := polled pkg c v p
    rw [hleave] at hp
    cases hp with
    | gaveUp he hge =>
      have hlt := hquiet polls (List.prefix_refl _)
      refine ⟨?_, he⟩
      rw [failures_snoc_error he]
      omega
  · rintro ⟨hnot, hquiet, hfull, he⟩
    rcases hbefore with ⟨v, hv, hcount, -⟩ | ⟨sigs, hv⟩ | ⟨e', hv, hloud⟩
    · refine ⟨⟨v, hv⟩, ?_⟩
      rw [hsnoc, hv, Flow.andThen_next]
      rcases poll_of_undisturbed pkg (h p (by simp)) v with ⟨e', he', hp⟩ | ⟨answer, ha, -⟩
      · rw [he] at he'
        cases he'
        rw [failures_snoc_error he, ← hcount] at hfull
        rw [hp, retry, if_neg (by omega)]
      · rw [he] at ha; cases ha
    · exact absurd hv (hnot sigs)
    · exact absurd hquiet hloud

/-- What one pass up to the block reached selects is returned, with nothing in
the way. -/
theorem collected_of_pass (h : Indexed c history polls) (hun : ∀ p ∈ polls, Undisturbed c p) (hq : Quiet polls)
    {t : Tally} (hpass : loop (visit pkg c) .empty (upTo pkg c history (reached c polls)) = .leave t) :
    polling pkg c polls = .leave (.ok t.sigs) := by
  rw [← h.tile.2] at hpass
  rcases polling_cases pkg hun with ⟨v, hv, -⟩ | ⟨sigs, hv⟩ | ⟨e, -, hloud⟩
  · rw [(polling_next hv).2] at hpass; cases hpass
  · obtain ⟨t', ht', rfl⟩ := polling_leave_ok hv
    rw [ht'] at hpass
    cases hpass
    exact hv
  · exact absurd hq hloud

end Failures

/-! ## Two voters in four polls -/

/-- Voter 1 signs twice, then voter 2 once. -/
def threeCalls : List Transaction := [signed 11 5 7 1, signed 12 5 7 1, signed 14 5 7 2]

/-- The same with a call that is not hex in between. -/
def garbledCalls : List Transaction := [signed 11 5 7 1, garbled 11, signed 12 5 7 1, signed 14 5 7 2]

/-- Polls of one table, the second with a query that fails. -/
def fourPolls (table : List Transaction) : List Poll :=
  [pollAt 11 table, failingAt 12, pollAt 13 table, pollAt 14 table]

theorem indexed_fourPolls {table : List Transaction} (h : table.Pairwise fun tx tx' => tx.block ≤ tx'.block) :
    Indexed toEpochFive table (fourPolls table) where
  sorted := h
  complete p hp state table' ha := by
    have hsame : ∀ p ∈ fourPolls table, ∀ table', p.transactions = .ok table' → table' = table := by
      simp [fourPolls, pollAt, failingAt, eq_comm]
    rw [hsame p hp table' (Poll.answer_ok_iff.mp ha).2]
  monotone := by
    change List.Pairwise (· ≤ ·) [(10 : Int), 11, 12, 13, 14]
    decide

theorem alike_fourPolls (table table' : List Transaction) :
    List.Forall₂ Poll.Alike (fourPolls table) (fourPolls table') :=
  .cons ⟨rfl, rfl, rfl, rfl⟩ (.cons ⟨rfl, rfl, rfl, rfl⟩ (.cons ⟨rfl, rfl, rfl, rfl⟩ (.cons ⟨rfl, rfl, rfl, rfl⟩ .nil)))

/-! ## One pass -/

section OnePass

variable {Value PublicKey : Type}

/-- **Incremental scanning is one pass.** Over an indexer that is complete up
to the blocks it reports, and whatever fails between: the windows read are the
calls up to the block reached, each once, and the tally is that of visiting
them; signatures that are returned are those of one pass over the history; and
transactions that count for nothing can be inserted anywhere without changing
the outcome. With the context not cancelled and the deadline not passed, a
collection gives up with too many errors exactly at the poll that is the first
to be the fifteenth failed one in a row. -/
theorem incremental_eq_onePass (pkg : SignaturePkg Value PublicKey) (c : Collection) :
    (∀ history polls, Indexed c history polls →
      ((windows pkg c polls).flatten = upTo pkg c history (reached c polls) ∧
        ∀ v, collectSignatures pkg c polls = .next v →
          loop (visit pkg c) .empty (windows pkg c polls).flatten = .next v.tally) ∧
      (∀ sigs, collectSignatures pkg c polls = .leave (.ok sigs) → onePass pkg c history = some sigs) ∧
      ∀ history' polls', Relation.ReflTransGen (Inserted pkg c) history history' → Indexed c history' polls' →
        List.Forall₂ Poll.Alike polls polls' → collectSignatures pkg c polls' = collectSignatures pkg c polls) ∧
    (c.newPolicy.rewardEpochID = c.activePolicy.rewardEpochID + 1 →
      ∀ polls p e, (∀ q ∈ polls ++ [p], Undisturbed c q) →
        ((∃ v, collectSignatures pkg c polls = .next v) ∧
            collectSignatures pkg c (polls ++ [p]) = .leave (.error (.tooManyErrors e)) ↔
          (∀ sigs, collectSignatures pkg c polls ≠ .leave (.ok sigs)) ∧ Quiet polls ∧ failures (polls ++ [p]) = 15 ∧
            p.answer = .error e)) := by
  constructor
  · intro history polls h
    refine ⟨⟨h.tile.2, fun v hv => ?_⟩, fun sigs hs => ?_, fun history' polls' hins h' halike => ?_⟩
    · exact (polling_next (collectSignatures_eq hv (by simp)).2).2
    · obtain ⟨t, ht, rfl⟩ := polling_leave_ok (collectSignatures_eq hs (by simp)).2
      rw [h.tile.2] at ht
      exact onePass_of_upTo h.sorted h.start_le_reached ht
    · unfold collectSignatures
      split
      · rfl
      · exact polling_alike (loop_upTo_of_inserted hins h'.sorted) halike h h'
  · intro hepoch polls p e hun
    have heq : ∀ polls, collectSignatures pkg c polls = polling pkg c polls := fun polls =>
      if_neg (not_not.mpr hepoch)
    rw [heq, heq]
    exact tooManyErrors_iff pkg hun

/-- The signatures are those of one pass, a garbled call changes nothing, and
fifteen failures in a row end a collection. -/
theorem incremental_eq_onePass_twoVoters :
    (∃ sigs, collectSignatures .bytewise toEpochFive (fourPolls threeCalls) = .leave (.ok sigs) ∧
      onePass .bytewise toEpochFive threeCalls = some sigs ∧
      collectSignatures .bytewise toEpochFive (fourPolls garbledCalls) = .leave (.ok sigs)) ∧
    collectSignatures .bytewise toEpochFive (List.replicate 14 (failingAt 12) ++ [failingAt 12]) =
      .leave (.error (.tooManyErrors "timeout")) ∧ Quiet (List.replicate 14 (failingAt 12)) := by
  have hscan := incremental_eq_onePass .bytewise toEpochFive
  have hret : collectSignatures .bytewise toEpochFive (fourPolls threeCalls) =
      .leave (.ok [⟨28, 0, 0⟩, ⟨29, 0, 0⟩]) := Flow.result?_eq_some.mp (by decide +kernel)
  have hins : Inserted .bytewise toEpochFive threeCalls garbledCalls :=
    @Inserted.insert _ _ _ _ [signed 11 5 7 1] _ _ (.nonHex rfl)
  obtain ⟨-, hpass, hsame⟩ := hscan.1 threeCalls (fourPolls threeCalls) (indexed_fourPolls (by decide))
  have hgarbled := hsame garbledCalls (fourPolls garbledCalls) (.single hins) (indexed_fourPolls (by decide))
    (alike_fourPolls _ _)
  have hmany : collectSignatures .bytewise toEpochFive (List.replicate 14 (failingAt 12) ++ [failingAt 12]) =
      .leave (.error (.tooManyErrors "timeout")) := Flow.result?_eq_some.mp (by decide +kernel)
  have hun : ∀ q ∈ List.replicate 14 (failingAt 12) ++ [failingAt 12], Undisturbed toEpochFive q := by
    intro q hq
    obtain rfl : q = failingAt 12 := by simpa using hq
    exact ⟨rfl, rfl, fun state hs => by cases hs; decide⟩
  obtain ⟨-, hquiet, -⟩ := (hscan.2 rfl _ _ _ hun).mp ⟨Flow.result?_eq_none.mp (by decide +kernel), hmany⟩
  exact ⟨⟨_, hret, hpass _ hret, hgarbled.trans hret⟩, hmany, hquiet⟩

end OnePass

end TeeProxy.Policy
