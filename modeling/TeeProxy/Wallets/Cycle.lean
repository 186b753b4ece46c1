/-
One cycle of the wallet sync (`sync`, `internal/service/wallets/wallets.go`)
from its key list to its eviction.

The cycle is the sync of `Wallets.Sync` with nothing between its steps
(`sync_later`): the node is asked for its keys, then batch by batch for the
proofs of the keys that are not cached or have another nonce, and what the
node no longer has is evicted. If every batch is answered with the proofs
that were asked for, the cache ends up as the node's key list.
-/
import TeeProxy.Lib.Fallible
import TeeProxy.Lib.Scan
import TeeProxy.Wallets.Representation

namespace TeeProxy.Wallets

/-! ## The cycle -/

/-- Why a sync returns an error: a request was not enqueued or not answered in
time, or the answer is not a result of what was asked. -/
inductive SyncErr
  | fetch (e : PkgErr)
  | result (e : Err)
  deriving DecidableEq, Repr

/-- What the requests of a sync come to: the node's answer, or the error of the
enqueue or of the wait. -/
structure Answers where
  keyInfo : Except PkgErr ActionResult
  keyProof : List IDPair → Except PkgErr ActionResult

/-- What a sync leaves: the cache, the batches it has asked for in order, and
what it returns. -/
structure Synced where
  cache : Cache
  requested : List (List IDPair)
  result : Except SyncErr Unit

section Cycle

variable (op : OpPkg) (pkg : WalletPkg) (answers : Answers)

def fetchKeyInfo : Except SyncErr (List KeyInfo) := do
  let response ← answers.keyInfo.mapError .fetch
  (parseKeyInfoResult op pkg response).mapError .result

def fetchKeyProofs (batch : List IDPair) : Except SyncErr (List (Option SignedProof)) := do
  let response ← (answers.keyProof batch).mapError .fetch
  (parseKeyProofResult op pkg response).mapError .result

/-- The loop of `sync` over its batches. -/
def Cache.syncBatches (c : Cache) : List (List IDPair) → Synced
  | [] => ⟨c, [], .ok ()⟩
  | batch :: todo => match fetchKeyProofs op pkg answers batch with
    | .error e => ⟨c, [batch], .error e⟩
    | .ok proofs => match c.writeBatch pkg proofs with
      | (c', .error e) => ⟨c', [batch], .error (.result e)⟩
      | (c', .ok ()) =>
        ⟨(c'.syncBatches todo).cache, batch :: (c'.syncBatches todo).requested, (c'.syncBatches todo).result⟩

/-- The end of `sync`: the eviction, unless the loop has returned. -/
def Synced.removeStaleKeys (s : Synced) (remote : List KeyInfo) (localAtStart : List IDPair) : Synced :=
  match s.result with
  | .error _ => s
  | .ok () => { s with cache := s.cache.removeStaleKeys remote localAtStart }

/-- `Service.sync`. The lock is released between its steps; here nothing else
takes it. -/
def Cache.sync (c : Cache) : Synced :=
  match fetchKeyInfo op pkg answers with
  | .error e => ⟨c, [], .error e⟩
  | .ok remote =>
    (c.syncBatches op pkg answers ((c.keysNeedingProof remote).toChunks keyProofBatchSize)).removeStaleKeys
      remote c.localKeySet

end Cycle

/-! ## What is asked for -/

namespace Cache

variable {c c' c'' : Cache} {remote : List KeyInfo} {ids ids' : List IDPair} {k : IDPair}

/-- The key is cached with the nonce the node lists. -/
def Current (c : Cache) (info : KeyInfo) : Prop :=
  ∃ data, c.keys.get? info.id = some data ∧ data.info.nonce = some info.nonce.toNat

/-- Cached nonces are nil or fit a `uint64`. -/
def NoncesFit (c : Cache) : Prop :=
  ∀ id data n, c.keys.get? id = some data → data.info.nonce = some n → n < UInt64.size

theorem ofNat_nonce_eq_iff {n : Nat} (hn : n < UInt64.size) (nonce : UInt64) :
    UInt64.ofNat n = nonce ↔ n = nonce.toNat := by
  rw [← UInt64.toNat_inj, UInt64.toNat_ofNat_of_lt' hn]

theorem mem_keysNeedingProof (hfit : c.NoncesFit) :
    k ∈ c.keysNeedingProof remote ↔ ∃ info ∈ remote, info.id = k ∧ ¬ c.Current info := by
  simp only [keysNeedingProof, List.mem_map, List.mem_filter, Current]
  refine exists_congr fun info => ?_
  rw [and_assoc, and_congr_right_iff]
  intro _
  rw [and_comm, and_congr_right_iff]
  intro _
  split
  next hget => simp [hget]
  next data hget =>
    split
    next hnil => simp [hget, hnil]
    next n hn =>
      have hiff := ofNat_nonce_eq_iff (hfit _ _ _ hget hn) info.nonce
      simp [hget, hn, hiff]

theorem nodup_keysNeedingProof (h : (remote.map KeyInfo.id).Nodup) : (c.keysNeedingProof remote).Nodup :=
  (List.filter_sublist.map KeyInfo.id).nodup h

/-! ## What is written -/

/-- From `c` to `c'` the data of the keys `ids` was written, with the nonces the
node lists, and no other. -/
structure Written (remote : List KeyInfo) (ids : List IDPair) (c c' : Cache) : Prop where
  others : ∀ k ∉ ids, c'.keys.get? k = c.keys.get? k
  nonces : ∀ k ∈ ids, ∃ data, c'.keys.get? k = some data ∧
    ∀ info ∈ remote, info.id = k → data.info.nonce = some info.nonce.toNat

theorem Written.refl : Written remote [] c c where
  others _ _ := rfl
  nonces _ hk := absurd hk List.not_mem_nil

theorem Written.trans (h : Written remote ids c c') (h' : Written remote ids' c' c'') :
    Written remote (ids ++ ids') c c'' where
  others k hk := by
    rw [List.mem_append, not_or] at hk
    rw [h'.others k hk.2, h.others k hk.1]
  nonces k hk := by
    by_cases hlast : k ∈ ids'
    · exact h'.nonces k hlast
    · rw [h'.others k hlast]
      exact h.nonces k ((List.mem_append.mp hk).resolve_right hlast)

theorem Written.congr (h : Written remote ids c c') (heq : ∀ k, k ∈ ids ↔ k ∈ ids') : Written remote ids' c c' where
  others k hk := h.others k (mt (heq k).mp hk)
  nonces k hk := h.nonces k ((heq k).mpr hk)

theorem Written.has_iff (h : Written remote ids c c') : c'.Has k ↔ k ∈ ids ∨ c.Has k := by
  by_cases hk : k ∈ ids
  · obtain ⟨data, hd, -⟩ := h.nonces k hk
    exact iff_of_true (GoMap.mem_keys.mpr ⟨data, hd⟩) (.inl hk)
  · rw [Has, GoMap.mem_keys, h.others k hk, ← GoMap.mem_keys]
    exact ⟨.inr, fun hor => hor.resolve_left hk⟩

theorem Written.put (info : KeyExistence) (proof : SignedProof)
    (hnonce : ∀ key ∈ remote, key.id = info.id → info.nonce = some key.nonce.toNat) :
    Written remote [info.id] c (c.put info proof) where
  others k hk := GoMap.get?_set_ne _ (fun heq => hk (List.mem_singleton.mpr heq)) _
  nonces k hk := by
    obtain rfl := List.mem_singleton.mp hk
    exact ⟨⟨info, proof⟩, GoMap.get?_set_self _ _ _, hnonce⟩

end Cache

section Answered

variable {op : OpPkg} {pkg : WalletPkg} {answers : Answers} {remote : List KeyInfo}

/-- The proof parses to the record. -/
def Parses (pkg : WalletPkg) (proof : Option SignedProof) (info : KeyExistence) : Prop :=
  ∃ p, proof = some p ∧ parseKeyExistenceProof pkg p = .ok info

/-- One parseable proof for each pair of a batch, in any order, with the nonce
the node lists for the pair. -/
def Proves (pkg : WalletPkg) (remote : List KeyInfo) (batch : List IDPair) (proofs : List (Option SignedProof)) :
    Prop :=
  ∃ infos, List.Forall₂ (Parses pkg) proofs infos ∧ (infos.map KeyExistence.id).Perm batch ∧
    ∀ info ∈ infos, ∀ key ∈ remote, key.id = info.id → info.nonce = some key.nonce.toNat

/-- The node answers a batch with the proofs that were asked for. -/
def Answers.Prove (answers : Answers) (op : OpPkg) (pkg : WalletPkg) (remote : List KeyInfo) (batch : List IDPair) :
    Prop :=
  ∃ proofs, fetchKeyProofs op pkg answers batch = .ok proofs ∧ Proves pkg remote batch proofs

theorem Cache.writeBatch_parsed {proofs : List (Option SignedProof)} {infos : List KeyExistence}
    (h : List.Forall₂ (Parses pkg) proofs infos)
    (hnonce : ∀ info ∈ infos, ∀ key ∈ remote, key.id = info.id → info.nonce = some key.nonce.toNat) (c : Cache) :
    (c.writeBatch pkg proofs).2 = .ok () ∧
      Written remote (infos.map KeyExistence.id) c (c.writeBatch pkg proofs).1 := by
  induction h generalizing c with
  | nil => exact ⟨rfl, .refl⟩
  | @cons proof info proofs infos hparse _ ih =>
    obtain ⟨p, rfl, hp⟩ := hparse
    have hhead := Written.put (c := c) info p (hnonce info List.mem_cons_self)
    obtain ⟨hok, hrest⟩ := ih (fun i hi => hnonce i (List.mem_cons_of_mem _ hi)) (c.put info p)
    unfold Cache.writeBatch
    rw [hp]
    exact ⟨hok, hhead.trans hrest⟩

theorem Cache.writeBatch_proves {batch : List IDPair} {proofs : List (Option SignedProof)}
    (h : Proves pkg remote batch proofs) (c : Cache) :
    ∃ c', c.writeBatch pkg proofs = (c', .ok ()) ∧ Written remote batch c c' := by
  obtain ⟨infos, hparse, hperm, hnonce⟩ := h
  obtain ⟨hok, hwritten⟩ := c.writeBatch_parsed hparse hnonce
  exact ⟨_, Prod.ext rfl hok, hwritten.congr fun k => hperm.mem_iff⟩

/-- All batches, by the answers to those that were asked for. -/
theorem Cache.syncBatches_written : ∀ (todo : List (List IDPair)) (c : Cache),
    (∀ batch ∈ (c.syncBatches op pkg answers todo).requested, answers.Prove op pkg remote batch) →
    (c.syncBatches op pkg answers todo).result = .ok () ∧ (c.syncBatches op pkg answers todo).requested = todo ∧
      Written remote todo.flatten c (c.syncBatches op pkg answers todo).cache
  | [], c, _ => ⟨rfl, rfl, .refl⟩
  | batch :: todo, c, hprove => by
    have hasked : batch ∈ (c.syncBatches op pkg answers (batch :: todo)).requested := by
      unfold Cache.syncBatches
      split
      · exact List.mem_singleton_self batch
      · split
        · exact List.mem_singleton_self batch
        · exact List.mem_cons_self
    obtain ⟨proofs, hfetch, hproofs⟩ := hprove batch hasked
    obtain ⟨c', hwrite, hwritten⟩ := c.writeBatch_proves hproofs
    have heq : c.syncBatches op pkg answers (batch :: todo) = ⟨(c'.syncBatches op pkg answers todo).cache,
        batch :: (c'.syncBatches op pkg answers todo).requested, (c'.syncBatches op pkg answers todo).result⟩ := by
      simp only [Cache.syncBatches, hfetch, hwrite]
    rw [heq] at hprove ⊢
    obtain ⟨hok, hreq, hrest⟩ := Cache.syncBatches_written todo c' fun b hb => hprove b (List.mem_cons_of_mem _ hb)
    exact ⟨hok, congrArg _ hreq, hwritten.trans hrest⟩

/-! ## What is evicted -/

theorem Cache.get?_removeStaleKeys {c : Cache} {localAtStart : List IDPair} {k : IDPair}
    (hk : k ∈ remote.map KeyInfo.id) : (c.removeStaleKeys remote localAtStart).keys.get? k = c.keys.get? k := by
  have all : ∀ (ids : List IDPair) {c : Cache}, k ∉ ids → (ids.foldl Cache.drop c).keys.get? k = c.keys.get? k := by
    intro ids
    induction ids with
    | nil => exact fun _ => rfl
    | cons id ids ih =>
      intro c hnot
      rw [List.mem_cons, not_or] at hnot
      rw [List.foldl_cons, ih hnot.2]
      exact (GoMap.get?_delete _ _ _).trans (if_neg hnot.1)
  refine all _ fun hmem => ?_
  have hstale := of_decide_eq_true (List.mem_filter.mp hmem).2
  exact hstale.1 hk

theorem Synced.requested_removeStaleKeys (s : Synced) (localAtStart : List IDPair) :
    (s.removeStaleKeys remote localAtStart).requested = s.requested := by
  unfold Synced.removeStaleKeys
  split <;> rfl

theorem Synced.removeStaleKeys_of_ok {s : Synced} (h : s.result = .ok ()) (localAtStart : List IDPair) :
    s.removeStaleKeys remote localAtStart = { s with cache := s.cache.removeStaleKeys remote localAtStart } := by
  simp only [Synced.removeStaleKeys, h]

/-- The cycle, when every batch it asks for is answered: everything that needs
a proof is written, then the stale keys are dropped. -/
theorem Cache.sync_written {c : Cache} (hinfo : fetchKeyInfo op pkg answers = .ok remote)
    (hproofs : ∀ batch ∈ (c.sync op pkg answers).requested, answers.Prove op pkg remote batch) :
    (c.sync op pkg answers).result = .ok () ∧
    (c.sync op pkg answers).requested = (c.keysNeedingProof remote).toChunks keyProofBatchSize ∧
    ∃ c', Written remote (c.keysNeedingProof remote) c c' ∧
      (c.sync op pkg answers).cache = c'.removeStaleKeys remote c.localKeySet := by
  have hsync : c.sync op pkg answers =
      (c.syncBatches op pkg answers ((c.keysNeedingProof remote).toChunks keyProofBatchSize)).removeStaleKeys
        remote c.localKeySet := by
    simp only [Cache.sync, hinfo]
  rw [hsync, Synced.requested_removeStaleKeys] at hproofs
  obtain ⟨hok, hasked, hwritten⟩ := Cache.syncBatches_written _ c hproofs
  have hflat : ((c.keysNeedingProof remote).toChunks keyProofBatchSize).flatten = c.keysNeedingProof remote :=
    Scan.flatten_toChunks _
  rw [hflat] at hwritten
  rw [hsync, Synced.removeStaleKeys_of_ok hok]
  exact ⟨hok, hasked, _, hwritten, rfl⟩

theorem Cache.Indexed.syncBatches : ∀ (todo : List (List IDPair)) {c : Cache}, c.Indexed →
    (c.syncBatches op pkg answers todo).cache.Indexed
  | [], _, h => h
  | batch :: todo, c, h => by
    unfold Cache.syncBatches
    split
    · exact h
    next proofs _ =>
      have hwrite : (c.writeBatch pkg proofs).1.Indexed := h.writeBatch proofs
      split
      next heq => rw [heq] at hwrite; exact hwrite
      next heq => rw [heq] at hwrite; exact Cache.Indexed.syncBatches todo hwrite

theorem Cache.Indexed.sync {c : Cache} (h : c.Indexed) : (c.sync op pkg answers).cache.Indexed := by
  unfold Cache.sync
  split
  · exact h
  next remote _ =>
    have hbatches : (c.syncBatches op pkg answers
        ((c.keysNeedingProof remote).toChunks keyProofBatchSize)).cache.Indexed := h.syncBatches _
    unfold Synced.removeStaleKeys
    split
    · exact hbatches
    · exact hbatches.removeStaleKeys remote c.localKeySet

/-- **An undisturbed sync makes the cache the node's key list.** Let the cache
be indexed, with nonces that fit, and the node list its keys without repeats.
If every batch the sync asks for is answered with one parseable proof per
pair, under the nonce the node lists, then the sync returns nil, and

* the cached pairs are the listed ones, each with the listed nonce, and the
  index is in order;
* what was cached with the listed nonce is as it was;
* no batch is of more than 100 pairs, and together they hold every pair that
  was missing or had another nonce once, and no other. -/
theorem sync_mirrors {c : Cache} (hindexed : c.Indexed) (hfit : c.NoncesFit)
    (hinfo : fetchKeyInfo op pkg answers = .ok remote) (hnodup : (remote.map KeyInfo.id).Nodup)
    (hproofs : ∀ batch ∈ (c.sync op pkg answers).requested, answers.Prove op pkg remote batch) :
    (c.sync op pkg answers).result = .ok () ∧
    (c.sync op pkg answers).cache.Indexed ∧
    (∀ k, (c.sync op pkg answers).cache.Has k ↔ k ∈ remote.map KeyInfo.id) ∧
    (∀ info ∈ remote, (c.sync op pkg answers).cache.Current info) ∧
    (∀ info ∈ remote, c.Current info → (c.sync op pkg answers).cache.keys.get? info.id = c.keys.get? info.id) ∧
    (∀ batch ∈ (c.sync op pkg answers).requested, batch.length ≤ 100) ∧
    (c.sync op pkg answers).requested.flatten.Nodup ∧
    ∀ k, k ∈ (c.sync op pkg answers).requested.flatten ↔ ∃ info ∈ remote, info.id = k ∧ ¬ c.Current info := by
  obtain ⟨hok, hreq, c', hwritten, hcache⟩ := c.sync_written hinfo hproofs
  have hmem : ∀ info ∈ remote, info.id ∈ remote.map KeyInfo.id := fun info hin => List.mem_map_of_mem hin
  have hneeds : ∀ info ∈ remote, info.id ∈ c.keysNeedingProof remote ↔ ¬ c.Current info := by
    intro info hin
    rw [Cache.mem_keysNeedingProof hfit]
    refine ⟨fun ⟨info', hin', hid, hnot⟩ => ?_, fun hnot => ⟨info, hin, rfl, hnot⟩⟩
    obtain rfl := List.inj_on_of_nodup_map hnodup hin' hin hid
    exact hnot
  have huntouched : ∀ info ∈ remote, c.Current info →
      (c.sync op pkg answers).cache.keys.get? info.id = c.keys.get? info.id := by
    intro info hin hcur
    rw [hcache, Cache.get?_removeStaleKeys (hmem info hin)]
    exact hwritten.others _ fun hneed => (hneeds info hin).mp hneed hcur
  refine ⟨hok, hindexed.sync, fun k => ?_, fun info hin => ?_, huntouched, ?_, ?_, fun k => ?_⟩
  · rw [hcache, Cache.has_removeStaleKeys, hwritten.has_iff]
    constructor
    · rintro ⟨hhas, hremote | hnew⟩
      · exact hremote
      · -- not cached before, so it was written, and only listed pairs are
        obtain ⟨info, hin, rfl, -⟩ := (Cache.mem_keysNeedingProof hfit).mp (hhas.resolve_right hnew)
        exact hmem info hin
    · intro hk
      obtain ⟨info, hin, rfl⟩ := List.mem_map.mp hk
      refine ⟨?_, .inl hk⟩
      rw [hneeds info hin, or_iff_not_imp_left, not_not]
      rintro ⟨data, hd, -⟩
      exact GoMap.mem_keys.mpr ⟨data, hd⟩
  · by_cases hcur : c.Current info
    · obtain ⟨data, hd, hn⟩ := hcur
      exact ⟨data, (huntouched info hin ⟨data, hd, hn⟩).trans hd, hn⟩
    · obtain ⟨data, hd, hn⟩ := hwritten.nonces _ ((hneeds info hin).mpr hcur)
      refine ⟨data, ?_, hn info hin rfl⟩
      rw [hcache, Cache.get?_removeStaleKeys (hmem info hin), hd]
  · rw [hreq]
    exact fun batch hb => Scan.length_le_of_mem_toChunks hb
  · rw [hreq, keyProofBatchSize, Scan.flatten_toChunks]
    exact Cache.nodup_keysNeedingProof hnodup
  · rw [hreq, keyProofBatchSize, Scan.flatten_toChunks]
    exact Cache.mem_keysNeedingProof hfit

end Answered

/-! ## The cycle among the runs of the service -/

section Runs

variable {op : OpPkg} {pkg : WalletPkg} {answers : Answers}

/-- The event loop applies nothing and the node acts on no key. -/
def Undisturbed (_ : State) (e : Event) : Prop := (∀ n, e ≠ .update n) ∧ ∀ r, e ≠ .act r

theorem fetchKeyInfo_ok_iff {remote : List KeyInfo} :
    fetchKeyInfo op pkg answers = .ok remote ↔
      ∃ r, answers.keyInfo = .ok r ∧ parseKeyInfoResult op pkg r = .ok remote := by
  simp only [fetchKeyInfo, Except.bind_ok_iff, Except.mapError_ok_iff]

theorem fetchKeyProofs_ok_iff {batch : List IDPair} {proofs : List (Option SignedProof)} :
    fetchKeyProofs op pkg answers batch = .ok proofs ↔
      ∃ r, answers.keyProof batch = .ok r ∧ parseKeyProofResult op pkg r = .ok proofs := by
  simp only [fetchKeyProofs, Except.bind_ok_iff, Except.mapError_ok_iff]

/-- A loop that returns nil has fetched, parsed and written its first batch. -/
theorem Cache.syncBatches_cons_ok {c : Cache} {batch : List IDPair} {todo : List (List IDPair)}
    (h : (c.syncBatches op pkg answers (batch :: todo)).result = .ok ()) :
    ∃ r proofs c', answers.keyProof batch = .ok r ∧ parseKeyProofResult op pkg r = .ok proofs ∧
      c.writeBatch pkg proofs = (c', .ok ()) ∧ (c'.syncBatches op pkg answers todo).result = .ok () ∧
      (c.syncBatches op pkg answers (batch :: todo)).cache = (c'.syncBatches op pkg answers todo).cache := by
  unfold Cache.syncBatches at h
  split at h
  · cases h
  next proofs hfetch =>
    obtain ⟨r, hr, hp⟩ := fetchKeyProofs_ok_iff.mp hfetch
    split at h
    · cases h
    next c' hw =>
      refine ⟨r, proofs, c', hr, hp, hw, h, ?_⟩
      simp only [Cache.syncBatches.eq_2, hfetch, hw]

/-- The loop of a sync that returns nil is a run of the service. -/
theorem syncBatches_later {v : View} : ∀ (todo : List (List IDPair)) {s₀ s : State},
    Lts.Later (system op pkg) Undisturbed s₀ s → s.pc = .batches v todo →
    (s.cache.syncBatches op pkg answers todo).result = .ok () →
    (∀ batch ∈ todo, ∀ r, answers.keyProof batch = .ok r → proves op pkg s.node r = true) →
    Lts.Later (system op pkg) Undisturbed s₀
      { s with cache := (s.cache.syncBatches op pkg answers todo).cache, pc := .batches v [] }
  | [], s₀, s, hl, hpc, _, _ => by
    have heq : s = { s with cache := s.cache, pc := .batches v [] } := by rw [← hpc]
    exact heq ▸ hl
  | batch :: todo, s₀, s, hl, hpc, hok, hproves => by
    obtain ⟨r, proofs, c', hr, hp, hw, hrest, hcache⟩ := Cache.syncBatches_cons_ok hok
    have hprove := hproves batch List.mem_cons_self r hr
    have hrun : (system op pkg).run s [.request true, .answerProof r, .receiveProof true, .writeBatch] =
        some { s with cache := c', pc := .batches v todo } := by
      simp [Lts.System.run, system, step, hpc, hprove, hp, hw]
    have hbatch : Lts.Later (system op pkg) Undisturbed s₀ { s with cache := c', pc := .batches v todo } := by
      refine hl.of_run (fun e he _ => ⟨fun n => ?_, fun r' => ?_⟩) hrun
      · rintro rfl; simp at he
      · rintro rfl; simp at he
    rw [hcache]
    exact syncBatches_later todo hbatch rfl hrest fun b hb => hproves b (List.mem_cons_of_mem _ hb)

/-- **The cycle is a run of the service** in which the event loop applies
nothing: a sync that returns nil, asked of a node that lists the keys it has
and proves no other, is what the service does from a state without a sync. -/
theorem sync_later {s : State} (hpc : s.pc = .idle) {r : ActionResult} (hr : answers.keyInfo = .ok r)
    (hlists : lists op pkg s.node r = true)
    (hproves : ∀ batch r, answers.keyProof batch = .ok r → proves op pkg s.node r = true)
    (hok : (s.cache.sync op pkg answers).result = .ok ()) :
    Lts.Later (system op pkg) Undisturbed s
      { s with cache := (s.cache.sync op pkg answers).cache, created := [], cycle := [] } := by
  unfold Cache.sync at hok ⊢
  split at hok
  · cases hok
  next remote hinfo =>
  obtain ⟨r', hr', hparse⟩ := fetchKeyInfo_ok_iff.mp hinfo
  obtain rfl : r = r' := Except.ok.inj (hr.symm.trans hr')
  set todo := (s.cache.keysNeedingProof remote).toChunks keyProofBatchSize with htodo
  set v : View := ⟨remote, s.cache.localKeySet⟩ with hv
  have hbatches : (s.cache.syncBatches op pkg answers todo).result = .ok () := by
    unfold Synced.removeStaleKeys at hok
    split at hok
    · exact hok
    next hres => exact hres
  have hrun : (system op pkg).run s
      [.triggerSync true, .answerInfo r, .receiveInfo true, .localKeySet, .keysNeedingProof] =
      some { s with pc := .batches v todo, created := [], cycle := [] } := by
    simp [Lts.System.run, system, step, hpc, hlists, hparse, htodo, hv]
  have hstart : Lts.Later (system op pkg) Undisturbed s
      { s with pc := .batches v todo, created := [], cycle := [] } := by
    refine Lts.Later.refl.of_run (fun e he _ => ⟨fun n => ?_, fun r' => ?_⟩) hrun
    · rintro rfl; simp at he
    · rintro rfl; simp at he
  have hloop := syncBatches_later todo hstart rfl hbatches fun b _ => hproves b
  rw [Synced.removeStaleKeys_of_ok hbatches]
  refine hloop.step (e := .removeStaleKeys) ⟨fun _ he => (by cases he), fun _ he => (by cases he)⟩ ?_
  simp [system, step, hv, hpc]

end Runs

/-- A cache with a key of another nonce, one that is current and one the node
no longer has. -/
def mixedCache : Cache :=
  ((Cache.empty.put ⟨1, 7, some 3, ⟨[], 0⟩⟩ ⟨[7], []⟩).put ⟨1, 8, some 0, ⟨[], 0⟩⟩ ⟨[8], []⟩).put
    ⟨1, 9, none, ⟨[], 0⟩⟩ ⟨[9], []⟩

/-- The node has the first two keys and a new one; its proofs come in another
order than they were asked for. -/
def mixedAnswers : Answers where
  keyInfo := .ok (plainResult .get .keyInfo [8, 7, 5])
  keyProof batch := .ok (plainResult .get .keyProof (batch.reverse.map fun id => id.keyID.toUInt8))

theorem sync_mirrors_mixed :
    (mixedCache.sync .numbered .bytes mixedAnswers).result = .ok () ∧
    (∀ k, (mixedCache.sync .numbered .bytes mixedAnswers).cache.Has k ↔ k ∈ ([⟨1, 8⟩, ⟨1, 7⟩, ⟨1, 5⟩] : List IDPair)) ∧
    (mixedCache.sync .numbered .bytes mixedAnswers).requested = [[⟨1, 7⟩, ⟨1, 5⟩]] := by
  have hindexed : mixedCache.Indexed := (((Cache.RepOK.empty.put _ _).put _ _).put _ _).indexed
  have hfit : mixedCache.NoncesFit := by
    intro id data n hd hn
    have hall : ∀ data ∈ mixedCache.keys.values, ∀ n ∈ data.info.nonce, n < UInt64.size := by decide +kernel
    exact hall data (GoMap.mem_values.mpr ⟨id, hd⟩) n hn
  have hreq : (mixedCache.sync .numbered .bytes mixedAnswers).requested = [[⟨1, 7⟩, ⟨1, 5⟩]] := by decide +kernel
  have hprove : mixedAnswers.Prove .numbered .bytes [⟨1, 8, 0⟩, ⟨1, 7, 0⟩, ⟨1, 5, 0⟩] [⟨1, 7⟩, ⟨1, 5⟩] := by
    refine ⟨[some ⟨[5], []⟩, some ⟨[7], []⟩], by decide +kernel,
      [⟨1, 5, some 0, ⟨[], 0⟩⟩, ⟨1, 7, some 0, ⟨[], 0⟩⟩], ?_, by decide +kernel, by decide +kernel⟩
    exact .cons ⟨_, rfl, rfl⟩ (.cons ⟨_, rfl, rfl⟩ .nil)
  have hinfo : fetchKeyInfo .numbered .bytes mixedAnswers = .ok [⟨1, 8, 0⟩, ⟨1, 7, 0⟩, ⟨1, 5, 0⟩] := by decide +kernel
  obtain ⟨hok, -, hhas, -⟩ := sync_mirrors hindexed hfit hinfo (by decide) fun batch hb => by
    rw [hreq] at hb
    obtain rfl := List.mem_singleton.mp hb
    exact hprove
  exact ⟨hok, hhas, hreq⟩

end TeeProxy.Wallets
