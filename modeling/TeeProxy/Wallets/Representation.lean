/-
The two maps of the wallet cache agree. `KeysForWallet` is an index of
`Keys`: a wallet's list names exactly the cached keys of the wallet, each
once, a wallet without keys has no list, and what is stored under a pair is
about that pair.

The maps are written by the event loop (`update`), by a batch of a sync
(`writeBatch`, which can stop half-way) and by its eviction
(`removeStaleKeys`). `writes` takes these in any order with any arguments;
a running service, with its sync and its node, only ever makes such writes
(`service_writes`).
-/
import TeeProxy.Wallets.Races

namespace TeeProxy.Wallets

namespace Cache

/-- `KeysForWallet` is an index of `Keys`. -/
structure RepOK (c : Cache) : Prop where
  nodup : ∀ w, (c.keyIDs w).Nodup
  listed : ∀ w k, k ∈ c.keyIDs w ↔ c.Has ⟨w, k⟩
  nonempty : ∀ w, c.keysForWallet.get? w ≠ some []
  named : ∀ id data, c.keys.get? id = some data → data.info.id = id

/-- The part of it that is about which keys there are: a wallet's list names
the cached keys of the wallet, each once. -/
structure Indexed (c : Cache) : Prop where
  nodup : ∀ w, (c.keyIDs w).Nodup
  listed : ∀ w k, k ∈ c.keyIDs w ↔ c.Has ⟨w, k⟩

variable {c : Cache}

theorem RepOK.indexed (h : c.RepOK) : c.Indexed := ⟨h.nodup, h.listed⟩

theorem RepOK.empty : RepOK .empty where
  nodup _ := List.nodup_nil
  listed _ _ := by simp [keyIDs, Has, Cache.empty, GoMap.mem_keys]
  nonempty _ := by simp [Cache.empty]
  named _ _ h := by simp [Cache.empty] at h

/-! ## Adding a key -/

theorem keysForWallet_put (info : KeyExistence) (proof : SignedProof) (w : Hash) :
    (c.put info proof).keysForWallet.get? w =
      if w = info.walletID ∧ info.keyID ∉ c.keyIDs info.walletID then
        some (c.keyIDs info.walletID ++ [info.keyID])
      else c.keysForWallet.get? w := by
  simp only [put]
  by_cases hmem : info.keyID ∈ c.keyIDs info.walletID
  · simp [hmem]
  · rw [if_neg hmem, GoMap.get?_set]
    simp [hmem]

theorem Indexed.put (h : c.Indexed) (info : KeyExistence) (proof : SignedProof) : (c.put info proof).Indexed where
  nodup w := by
    rw [keyIDs, keysForWallet_put]
    split
    next hnew =>
      rw [Option.getD_some]
      refine List.nodup_append.mpr ⟨h.nodup _, List.nodup_singleton _, fun a ha b hb hab => ?_⟩
      rw [List.mem_singleton] at hb
      subst hb hab
      exact hnew.2 ha
    next => exact h.nodup w
  listed w k := by
    have hid : (⟨w, k⟩ : IDPair) = info.id ↔ w = info.walletID ∧ k = info.keyID := by
      simp [KeyExistence.id]
    rw [keyIDs_put, has_put, h.listed, hid]

theorem RepOK.put (h : c.RepOK) (info : KeyExistence) (proof : SignedProof) : (c.put info proof).RepOK where
  nodup := (h.indexed.put info proof).nodup
  listed := (h.indexed.put info proof).listed
  nonempty w := by
    rw [keysForWallet_put]
    split
    · simp
    · exact h.nonempty w
  named id data hd := by
    simp only [Cache.put, GoMap.get?_set] at hd
    split at hd
    next hid => cases hd; exact hid.symm
    next => exact h.named id data hd

/-! ## Removing a key -/

theorem keysForWallet_drop (id : IDPair) (w : Hash) :
    (c.drop id).keysForWallet.get? w =
      if w = id.walletID then
        if (c.keyIDs w).filter (fun k => k ≠ id.keyID) = [] then none
        else some ((c.keyIDs w).filter fun k => k ≠ id.keyID)
      else c.keysForWallet.get? w := by
  simp only [drop]
  by_cases hw : w = id.walletID
  · subst hw
    rw [if_pos rfl]
    split
    · rw [GoMap.get?_delete, if_pos rfl]
    · rw [GoMap.get?_set_self]
  · rw [if_neg hw]
    split
    · rw [GoMap.get?_delete, if_neg hw, GoMap.get?_set_ne _ hw]
    · rw [GoMap.get?_set_ne _ hw]

theorem Indexed.drop (h : c.Indexed) (id : IDPair) : (c.drop id).Indexed where
  nodup w := by
    rw [keyIDs, keysForWallet_drop]
    split
    · split
      · exact List.nodup_nil
      · exact (h.nodup w).filter _
    · exact h.nodup w
  listed w k := by
    have hid : (⟨w, k⟩ : IDPair) ≠ id ↔ ¬ (w = id.walletID ∧ k = id.keyID) := by
      obtain ⟨w', k'⟩ := id
      simp
    rw [keyIDs_drop, has_drop, h.listed, hid]

theorem RepOK.drop (h : c.RepOK) (id : IDPair) : (c.drop id).RepOK where
  nodup := (h.indexed.drop id).nodup
  listed := (h.indexed.drop id).listed
  nonempty w := by
    rw [keysForWallet_drop]
    split
    · split
      · simp
      next hne => exact fun heq => hne (Option.some.inj heq)
    · exact h.nonempty w
  named id' data hd := by
    simp only [Cache.drop, GoMap.get?_delete] at hd
    split at hd
    · cases hd
    · exact h.named id' data hd

/-! ## The three writers -/

variable {op : OpPkg} {pkg : WalletPkg}

theorem RepOK.update (h : c.RepOK) (r : ActionResult) : (c.update op pkg r).1.RepOK := by
  cases hu : c.update op pkg r with
  | mk c' res =>
    cases update_updated hu with
    | refused => exact h
    | added info proof => exact h.put info proof
    | removed => exact h.drop _

theorem RepOK.writeBatch (h : c.RepOK) (proofs : List (Option SignedProof)) : (c.writeBatch pkg proofs).1.RepOK :=
  writeBatch_inv RepOK (fun _ info proof h => h.put info proof) proofs h

theorem Indexed.writeBatch (h : c.Indexed) (proofs : List (Option SignedProof)) :
    (c.writeBatch pkg proofs).1.Indexed :=
  writeBatch_inv Indexed (fun _ info proof h => h.put info proof) proofs h

theorem RepOK.removeStaleKeys (h : c.RepOK) (remote : List KeyInfo) (localAtStart : List IDPair) :
    (c.removeStaleKeys remote localAtStart).RepOK :=
  removeStaleKeys_inv RepOK (fun _ id h => h.drop id) h remote localAtStart

theorem Indexed.removeStaleKeys (h : c.Indexed) (remote : List KeyInfo) (localAtStart : List IDPair) :
    (c.removeStaleKeys remote localAtStart).Indexed :=
  removeStaleKeys_inv Indexed (fun _ id h => h.drop id) h remote localAtStart

/-! ## What `WalletInfo` answers -/

/-- A wallet has a list exactly when one of its keys is cached. -/
theorem RepOK.keysForWallet_none_iff (h : c.RepOK) (w : Hash) :
    c.keysForWallet.get? w = none ↔ ∀ k, ¬ c.Has ⟨w, k⟩ := by
  refine ⟨fun hnone k hk => ?_, fun hnone => ?_⟩
  · have hmem := (h.listed w k).mpr hk
    rw [keyIDs, hnone] at hmem
    cases hmem
  · cases hl : c.keysForWallet.get? w with
    | none => rfl
    | some l =>
      cases l with
      | nil => exact absurd hl (h.nonempty w)
      | cons k l => exact absurd ((h.listed w k).mp (by simp [keyIDs, hl])) (hnone k)

/-- The first key of a wallet's list answers for the wallet. -/
theorem RepOK.walletInfo (h : c.RepOK) (w : Hash) :
    (c.walletInfo w = .error .walletNotFound ∧ ∀ k, ¬ c.Has ⟨w, k⟩) ∨
      ∃ k data, c.keys.get? ⟨w, k⟩ = some data ∧ c.walletInfo w = .ok data.info := by
  unfold Cache.walletInfo
  split
  next hnone => exact .inl ⟨rfl, (h.keysForWallet_none_iff w).mp hnone⟩
  next hnil => exact absurd hnil (h.nonempty w)
  next k l hl =>
    have hhas : c.Has ⟨w, k⟩ := (h.listed w k).mp (by simp [keyIDs, hl])
    obtain ⟨data, hdata⟩ := GoMap.mem_keys.mp hhas
    exact .inr ⟨k, data, hdata, by rw [hdata]⟩

end Cache

/-! ## Every run -/

/-- One locked write of the maps. -/
inductive Write
  | update (r : ActionResult)
  | writeBatch (proofs : List (Option SignedProof))
  | removeStaleKeys (remote : List KeyInfo) (localAtStart : List IDPair)

section Writes

variable (op : OpPkg) (pkg : WalletPkg)

def Cache.write (c : Cache) : Write → Cache
  | .update r => (c.update op pkg r).1
  | .writeBatch proofs => (c.writeBatch pkg proofs).1
  | .removeStaleKeys remote localAtStart => c.removeStaleKeys remote localAtStart

/-- The cache of a new service under any writes. -/
def writes : Lts.System Cache Write where
  init c := c = .empty
  step c w := some (c.write op pkg w)

/-- A new service, with its sync and a node that has any keys. -/
def service : Lts.System State Event where
  init s := ∃ node, s = emptyState node
  step := step op pkg

end Writes

variable {op : OpPkg} {pkg : WalletPkg}

theorem Cache.RepOK.write {c : Cache} (h : c.RepOK) (w : Write) : (c.write op pkg w).RepOK := by
  cases w with
  | update r => exact h.update r
  | writeBatch proofs => exact h.writeBatch proofs
  | removeStaleKeys remote localAtStart => exact h.removeStaleKeys remote localAtStart

theorem repOK_of_reach {c : Cache} (h : Lts.Reach (writes op pkg) Lts.Free c) : c.RepOK := by
  refine h.invariant Cache.RepOK (fun c hc => ?_) fun c w c' _ hrep _ hs => ?_
  · subst hc; exact .empty
  · cases hs; exact hrep.write w

theorem step_write {s s' : State} {e : Event} (h : step op pkg s e = some s') :
    s'.cache = s.cache ∨ ∃ w, s'.cache = s.cache.write op pkg w := by
  cases e with
  | update n =>
    simp only [step] at h
    split at h
    · cases h
    next r _ =>
    split at h <;> next hu => cases h; exact .inr ⟨.update r, by rw [Cache.write, hu]⟩
  | writeBatch =>
    cases step_inv h with
    | failed => exact .inl rfl
    | wrote => exact .inr ⟨.writeBatch _, rfl⟩
  | removeStaleKeys =>
    cases step_inv h with
    | failed => exact .inl rfl
    | evicted => exact .inr ⟨.removeStaleKeys _ _, rfl⟩
  | _ => cases step_inv h <;> exact .inl rfl

theorem service_writes {s : State} (h : Lts.Reach (service op pkg) Lts.Free s) :
    Lts.Reach (writes op pkg) Lts.Free s.cache := by
  refine h.simulation (A := writes op pkg) State.cache (fun s hs => ?_) fun s e s' _ _ _ hs => ?_
  · obtain ⟨node, rfl⟩ := hs
    rfl
  · rcases step_write hs with heq | ⟨w, heq⟩
    · exact .inl heq
    · exact .inr ⟨w, trivial, by rw [heq]; rfl⟩

/-- **The maps of the wallet cache agree** after any writes: for every wallet,
its list names the cached keys of the wallet, each once, there is no list
without keys, and every entry is about its own pair. So `WalletInfo` finds
the data of the key it picks, and finds no wallet exactly when no key of it
is cached. -/
theorem maps_agree {c : Cache} (h : Lts.Reach (writes op pkg) Lts.Free c) (w : Hash) :
    (c.keyIDs w).Nodup ∧
    (∀ k, k ∈ c.keyIDs w ↔ c.Has ⟨w, k⟩) ∧
    ((∀ k, ¬ c.Has ⟨w, k⟩) → c.keysForWallet.get? w = none) ∧
    (∀ k data, c.keys.get? ⟨w, k⟩ = some data → data.info.walletID = w ∧ data.info.keyID = k) ∧
    c.walletInfo w ≠ .error .keyDataNotFound ∧
    (c.walletInfo w = .error .walletNotFound ↔ ∀ k, ¬ c.Has ⟨w, k⟩) := by
  have hrep := repOK_of_reach h
  have hnamed : ∀ k data, c.keys.get? ⟨w, k⟩ = some data → data.info.walletID = w ∧ data.info.keyID = k := by
    intro k data hd
    have hid := hrep.named _ _ hd
    simpa [KeyExistence.id] using hid
  refine ⟨hrep.nodup w, hrep.listed w, (hrep.keysForWallet_none_iff w).mpr, hnamed, ?_⟩
  rcases hrep.walletInfo w with ⟨hinfo, hnone⟩ | ⟨k, data, hd, hinfo⟩
  · rw [hinfo]
    exact ⟨by simp, fun _ => hnone, fun _ => rfl⟩
  · rw [hinfo]
    refine ⟨by simp, by simp, fun hnone => ?_⟩
    exact absurd (GoMap.mem_keys.mpr ⟨data, hd⟩) (hnone k)

/-- A key generated twice, a batch, the deletion of an unknown key, and an
eviction that leaves the wallet one key. -/
def someWrites : List Write :=
  [.update (plainResult .wallet .keyGenerate [7]), .update (plainResult .wallet .keyGenerate [7]),
    .writeBatch [some ⟨[8], []⟩, none, some ⟨[9], []⟩], .update (plainResult .wallet .keyDelete [9]),
    .removeStaleKeys [⟨1, 8, 0⟩] [⟨1, 7⟩]]

theorem maps_agree_someWrites :
    ∃ c, Lts.Reach (writes .numbered .bytes) Lts.Free c ∧ c.keyIDs 1 = [8] ∧
      c.walletInfo 1 ≠ .error .keyDataNotFound ∧ c.walletInfo 1 ≠ .error .walletNotFound := by
  have hrun : ((writes .numbered .bytes).run .empty someWrites).any (fun c => c.keyIDs 1 = [8]) := by decide +kernel
  obtain ⟨c, hc, hend⟩ := (Option.any_eq_true _ _).mp hrun
  have hreach : Lts.Reach (writes .numbered .bytes) Lts.Free c := .of_run (.init rfl) (fun _ _ _ => trivial) hc
  have hids : c.keyIDs 1 = [8] := of_decide_eq_true hend
  obtain ⟨-, hlisted, -, -, hdata, hwallet⟩ := maps_agree hreach 1
  refine ⟨c, hreach, hids, hdata, fun heq => ?_⟩
  exact hwallet.mp heq 8 ((hlisted 8).mp (by rw [hids]; exact List.mem_singleton_self 8))

/-! ## What the other readers answer -/

structure WalletsInfoResponse where
  wallets : Nat
  keys : Nat
  pairs : List IDPair
  deriving DecidableEq, Repr

/-- The errors of the readers. -/
inductive ReadErr
  | keyProofNotFound
  | keyDataNotFound
  deriving DecidableEq, Repr

namespace Cache

def walletsInfo (c : Cache) : WalletsInfoResponse := ⟨c.keysForWallet.size, c.keys.size, c.keys.keys⟩

def keyProof (c : Cache) (walletID : Hash) (keyID : UInt64) : Except ReadErr SignedProof :=
  match c.keys.get? ⟨walletID, keyID⟩ with
  | none => .error .keyProofNotFound
  | some data => .ok data.proof

def keyData (c : Cache) (walletID : Hash) (keyID : UInt64) : Except ReadErr KeyData :=
  match c.keys.get? ⟨walletID, keyID⟩ with
  | none => .error .keyDataNotFound
  | some data => .ok data

variable {c : Cache}

theorem keyData_ok_iff {w : Hash} {k : UInt64} {data : KeyData} :
    c.keyData w k = .ok data ↔ c.keys.get? ⟨w, k⟩ = some data := by
  unfold keyData
  split
  next hnone => simp [hnone]
  next hsome => simp [hsome]

theorem keyProof_ok_iff {w : Hash} {k : UInt64} {proof : SignedProof} :
    c.keyProof w k = .ok proof ↔ ∃ data, c.keyData w k = .ok data ∧ data.proof = proof := by
  simp only [keyData_ok_iff]
  unfold keyProof
  split
  next hnone => simp [hnone]
  next hsome => simp [hsome]

/-- The wallets with a list are those of the cached keys. -/
theorem RepOK.mem_wallets (h : c.RepOK) (w : Hash) :
    w ∈ c.keysForWallet.keys ↔ w ∈ c.keys.keys.map IDPair.walletID := by
  rw [← not_iff_not, GoMap.not_mem_keys, h.keysForWallet_none_iff]
  constructor
  · intro hnone hw
    obtain ⟨⟨w', k⟩, hk, rfl⟩ := List.mem_map.mp hw
    exact hnone k hk
  · intro hw k hk
    exact hw (List.mem_map.mpr ⟨_, hk, rfl⟩)

theorem RepOK.size_keysForWallet (h : c.RepOK) :
    c.keysForWallet.size = (c.keys.keys.map IDPair.walletID).dedup.length :=
  ((List.perm_ext_iff_of_nodup (GoMap.nodup_keys _) (List.nodup_dedup _)).mpr fun w => by
    rw [h.mem_wallets, List.mem_dedup]).length_eq

end Cache

/-- **The readers of the cache agree**, whatever results, syncs and evictions
came before: `WalletsInfo` lists every cached pair once, with their number and
the number of their wallets; `KeyProof` and `KeyData` answer for exactly the
pairs it lists, with one record that names the pair; and `WalletInfo` answers
for exactly the wallets of the pairs it lists, with what `KeyData` has on one
of them. -/
theorem readers_agree {c : Cache} (h : Lts.Reach (writes op pkg) Lts.Free c) :
    c.walletsInfo.pairs.Nodup ∧ c.walletsInfo.keys = c.walletsInfo.pairs.length ∧
    c.walletsInfo.wallets = (c.walletsInfo.pairs.map IDPair.walletID).dedup.length ∧
    (∀ w k, ⟨w, k⟩ ∈ c.walletsInfo.pairs ↔ ∃ data, c.keyData w k = .ok data ∧ c.keyProof w k = .ok data.proof ∧
      data.info.id = ⟨w, k⟩) ∧
    (∀ w k, ⟨w, k⟩ ∉ c.walletsInfo.pairs →
      c.keyData w k = .error .keyDataNotFound ∧ c.keyProof w k = .error .keyProofNotFound) ∧
    ∀ w, (w ∈ c.walletsInfo.pairs.map IDPair.walletID →
        ∃ k data, c.keyData w k = .ok data ∧ c.walletInfo w = .ok data.info) ∧
      (w ∉ c.walletsInfo.pairs.map IDPair.walletID → c.walletInfo w = .error .walletNotFound) := by
  have hrep := repOK_of_reach h
  refine ⟨GoMap.nodup_keys _, rfl, hrep.size_keysForWallet, fun w k => ⟨fun hmem => ?_, ?_⟩, fun w k hmem => ?_,
    fun w => ?_⟩
  · obtain ⟨data, hdata⟩ := GoMap.mem_keys.mp hmem
    have hread := Cache.keyData_ok_iff.mpr hdata
    exact ⟨data, hread, Cache.keyProof_ok_iff.mpr ⟨data, hread, rfl⟩, hrep.named _ _ hdata⟩
  · rintro ⟨data, hread, -⟩
    exact GoMap.mem_keys.mpr ⟨data, Cache.keyData_ok_iff.mp hread⟩
  · have hnone := GoMap.not_mem_keys.mp hmem
    simp only [Cache.keyData, Cache.keyProof, hnone, and_self]
  · have hhas (k : UInt64) : c.Has ⟨w, k⟩ → w ∈ c.walletsInfo.pairs.map IDPair.walletID :=
      fun hk => List.mem_map.mpr ⟨_, hk, rfl⟩
    rcases hrep.walletInfo w with ⟨hinfo, hnone⟩ | ⟨k, data, hdata, hinfo⟩
    · refine ⟨fun hw => ?_, fun _ => hinfo⟩
      obtain ⟨⟨w', k⟩, hk, rfl⟩ := List.mem_map.mp hw
      exact absurd hk (hnone k)
    · refine ⟨fun _ => ⟨k, data, Cache.keyData_ok_iff.mpr hdata, hinfo⟩, fun hw => ?_⟩
      exact absurd (hhas k (GoMap.mem_keys.mpr ⟨data, hdata⟩)) hw

/-- A key that is generated, two that a sync finds, and an eviction of the
first. -/
theorem readers_agree_batch :
    ∃ c, Lts.Reach (writes .numbered .bytes) Lts.Free c ∧ c.walletsInfo = ⟨1, 2, [⟨1, 9⟩, ⟨1, 8⟩]⟩ ∧
      ∃ k data, c.keyData 1 k = .ok data ∧ c.walletInfo 1 = .ok data.info := by
  have hrun : ((writes .numbered .bytes).run .empty [.update (plainResult .wallet .keyGenerate [7]),
      .writeBatch [some ⟨[8], []⟩, some ⟨[9], []⟩], .removeStaleKeys [⟨1, 8, 0⟩] [⟨1, 7⟩]]).any
      (fun c => c.walletsInfo = ⟨1, 2, [⟨1, 9⟩, ⟨1, 8⟩]⟩) := by
    decide +kernel
  obtain ⟨c, hc, hend⟩ := (Option.any_eq_true _ _).mp hrun
  have hinfo := of_decide_eq_true hend
  have hreach : Lts.Reach (writes .numbered .bytes) Lts.Free c := .of_run (.init rfl) (fun _ _ _ => trivial) hc
  exact ⟨c, hreach, hinfo, ((readers_agree hreach).2.2.2.2.2 1).1 (by rw [hinfo]; decide)⟩

end TeeProxy.Wallets
