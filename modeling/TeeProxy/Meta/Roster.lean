/-
What `meta.Cosigners` accepts: a list without repeats that is, as a set and
with its threshold, the roster the command is checked against. That roster
is the wallet's for Pay, Reissue and VRF, the backup's admins for
KeyDataProviderRestore, and the declared list itself for every other
command.

Sets are compared by containment and equal length. That is equality, since
neither side repeats an address: the declared list was checked for it, and
the other side is a map.
-/
import TeeProxy.Lib.Fallible
import TeeProxy.Meta
import TeeProxy.Wallets.Representation

namespace TeeProxy.Meta

/-! ## Sets of addresses -/

theorem get?_toSet (l : List Address) (a : Address) : (toSet l).get? a = if a ∈ l then some true else none := by
  suffices ∀ m : GoMap Address Bool,
      (l.foldl (fun m a => m.set a true) m).get? a = if a ∈ l then some true else m.get? a by
    simpa [toSet] using this ∅
  induction l with
  | nil => intro m; simp
  | cons b l ih =>
    intro m
    rw [List.foldl_cons, ih, GoMap.get?_set]
    by_cases hl : a ∈ l
    · simp [hl]
    · by_cases hab : a = b <;> simp [hl, hab]

theorem mem_keys_toSet {l : List Address} {a : Address} : a ∈ (toSet l).keys ↔ a ∈ l := by
  rw [GoMap.mem_keys, get?_toSet]
  split
  next h => simp [h]
  next h => simp [h]

theorem size_toSet {l l' : List Address} (hl : l.Nodup) (h : ∀ a, a ∈ l ↔ a ∈ l') : (toSet l').size = l.length := by
  have hperm : List.Perm (toSet l').keys l :=
    (List.perm_ext_iff_of_nodup (GoMap.nodup_keys _) hl).mpr fun a => by rw [mem_keys_toSet, h]
  exact hperm.length_eq

/-! ## Declared rosters -/

/-- The instruction declares a roster: the same set of addresses and the same
threshold. -/
structure Declares (data : DataFixed) (cosigners : List Address) (threshold : UInt64) : Prop where
  set : ∀ a, a ∈ data.cosigners ↔ a ∈ cosigners
  threshold : data.cosignersThreshold = threshold

theorem checkCosigner_ok_iff {cosigners roster : List Address} {t t' : UInt64} (hnodup : cosigners.Nodup) :
    checkCosigner cosigners (toSet roster) t t' = .ok () ↔ (∀ a, a ∈ cosigners ↔ a ∈ roster) ∧ t = t' := by
  have hany : (cosigners.any fun cs => (toSet roster).get? cs ≠ some true) = true ↔ ¬ cosigners ⊆ roster := by
    simp only [List.any_eq_true, get?_toSet, List.subset_def]
    simp
  unfold checkCosigner
  split
  next hlen =>
    refine ⟨fun h => (by cases h), fun h => absurd (size_toSet hnodup h.1).symm hlen⟩
  next hlen =>
  split
  next hmiss =>
    refine ⟨fun h => (by cases h), fun h => absurd (fun a ha => (h.1 a).mp ha) (hany.mp hmiss)⟩
  next hmiss =>
  have hsub : cosigners ⊆ roster := not_not.mp fun hnot => hmiss (hany.mpr hnot)
  have hkeys : cosigners ⊆ (toSet roster).keys := fun a ha => mem_keys_toSet.mpr (hsub ha)
  have hperm : List.Perm cosigners (toSet roster).keys :=
    (List.subperm_of_subset hnodup hkeys).perm_of_length_le (not_not.mp hlen).ge
  have hset : ∀ a, a ∈ cosigners ↔ a ∈ roster := fun a => by rw [hperm.mem_iff, mem_keys_toSet]
  split
  next hne => exact ⟨fun h => (by cases h), fun h => absurd h.2 hne⟩
  next heq => exact ⟨fun _ => ⟨hset, not_not.mp heq⟩, fun _ => rfl⟩

theorem declared_ok_iff {data : DataFixed} {roster : List Address} {t : UInt64} {r : GoMap Address Bool × UInt64}
    (hnodup : data.cosigners.Nodup) :
    declared data (.ok (toSet roster, t)) = .ok r ↔ Declares data roster t ∧ r = (toSet roster, t) := by
  unfold declared
  simp only [Except.bind_ok_iff, Except.pure_ok_iff, Except.ok.injEq, exists_eq_left']
  constructor
  · rintro ⟨⟨⟩, hc, rfl⟩
    obtain ⟨hset, ht⟩ := (checkCosigner_ok_iff hnodup).mp hc
    exact ⟨⟨hset, ht⟩, rfl⟩
  · rintro ⟨hd, rfl⟩
    exact ⟨(), (checkCosigner_ok_iff hnodup).mpr ⟨hd.set, hd.threshold⟩, rfl⟩

/-! ## What a command is checked against -/

section Authority

variable (op : OpPkg) (node : NodePkg) (ws : Wallets.Cache) (data : DataFixed)

/-- The roster an instruction has to declare. -/
inductive Authority : List Address → UInt64 → Prop
  | payment {walletID info} : data.opCommand = op.commandHash .pay ∨ data.opCommand = op.commandHash .reissue →
      node.parsePaymentInstruction data = .ok walletID → ws.walletInfo walletID = .ok info →
      Authority info.configConstants.cosigners info.configConstants.cosignersThreshold
  | vrf {id info} : data.opCommand = op.commandHash .vrf → node.parseVRFInstruction data = .ok id →
      ws.walletInfo id.walletID = .ok info →
      Authority info.configConstants.cosigners info.configConstants.cosignersThreshold
  | restore {backup admins} : data.opCommand = op.commandHash .keyDataProviderRestore →
      node.unmarshalBackupMetaData data.additionalFixedMessage = .ok backup →
      node.pubKeysToAddresses backup.adminsPublicKeys = .ok admins →
      Authority admins backup.adminsThreshold
  | declared : data.opCommand ≠ op.commandHash .pay → data.opCommand ≠ op.commandHash .reissue →
      data.opCommand ≠ op.commandHash .vrf → data.opCommand ≠ op.commandHash .keyDataProviderRestore →
      Authority data.cosigners data.cosignersThreshold

end Authority

section Accepted

variable {op : OpPkg} {node : NodePkg} {ws : Wallets.Cache} {data : DataFixed} {r : GoMap Address Bool × UInt64}

theorem nodup_of_not_duplicates (h : ¬ node.hasDuplicateAddresses data.cosigners = true) : data.cosigners.Nodup :=
  not_not.mp fun hdup => h ((node.hasDuplicateAddresses_iff _).mpr hdup)

theorem walletCosigners_ok {walletID : Hash} (h : walletCosigners ws walletID = .ok r) :
    ∃ info, ws.walletInfo walletID = .ok info ∧
      r = (toSet info.configConstants.cosigners, info.configConstants.cosignersThreshold) := by
  unfold walletCosigners at h
  simp only [Except.bind_ok_iff, Except.mapError_ok_iff, Except.pure_ok_iff] at h
  obtain ⟨info, hinfo, heq⟩ := h
  exact ⟨info, hinfo, heq.symm⟩

theorem keyDataProviderRestoreAdmins_ok (h : keyDataProviderRestoreAdmins node data = .ok r) :
    ∃ backup admins, node.unmarshalBackupMetaData data.additionalFixedMessage = .ok backup ∧
      node.pubKeysToAddresses backup.adminsPublicKeys = .ok admins ∧ r = (toSet admins, backup.adminsThreshold) := by
  unfold keyDataProviderRestoreAdmins at h
  simp only [Except.bind_ok_iff, Except.mapError_ok_iff, Except.pure_ok_iff, Except.ite_throw_ok_iff] at h
  obtain ⟨backup, hb, -, -, admins, ha, -, -, -, heq⟩ := h
  exact ⟨backup, admins, hb, ha, heq.symm⟩

theorem declared_resolved {resolved} (h : declared data resolved = .ok r) :
    ∃ p, resolved = .ok p ∧ declared data (.ok p) = .ok r := by
  cases resolved with
  | error e => cases h
  | ok p => exact ⟨p, rfl, h⟩

/-- **Accepted**: the declared list has no repeats and is the roster the
command is checked against, which is what is returned, as a set. -/
theorem cosignersOf_ok (h : cosignersOf op node ws data = .ok r) :
    data.cosigners.Nodup ∧ ∃ roster, Authority op node ws data roster r.2 ∧ r.1 = toSet roster ∧
      Declares data roster r.2 := by
  unfold cosignersOf at h
  split at h
  · cases h
  next hdup =>
  have hnodup := nodup_of_not_duplicates hdup
  refine ⟨hnodup, ?_⟩
  split at h
  next hcmd =>
    obtain ⟨p, hp, hd⟩ := declared_resolved h
    unfold xrpCosigners at hp
    simp only [Except.bind_ok_iff, Except.mapError_ok_iff] at hp
    obtain ⟨walletID, hw, hp⟩ := hp
    obtain ⟨info, hinfo, rfl⟩ := walletCosigners_ok hp
    obtain ⟨hdecl, rfl⟩ := (declared_ok_iff hnodup).mp hd
    exact ⟨_, .payment hcmd hw hinfo, rfl, hdecl⟩
  next hpay =>
  split at h
  next hcmd =>
    obtain ⟨p, hp, hd⟩ := declared_resolved h
    unfold vrfCosigners at hp
    simp only [Except.bind_ok_iff, Except.mapError_ok_iff] at hp
    obtain ⟨id, hid, hp⟩ := hp
    obtain ⟨info, hinfo, rfl⟩ := walletCosigners_ok hp
    obtain ⟨hdecl, rfl⟩ := (declared_ok_iff hnodup).mp hd
    exact ⟨_, .vrf hcmd hid hinfo, rfl, hdecl⟩
  next hvrf =>
  split at h
  next hcmd =>
    obtain ⟨p, hp, hd⟩ := declared_resolved h
    obtain ⟨backup, admins, hb, ha, rfl⟩ := keyDataProviderRestoreAdmins_ok hp
    obtain ⟨hdecl, rfl⟩ := (declared_ok_iff hnodup).mp hd
    exact ⟨_, .restore hcmd hb ha, rfl, hdecl⟩
  next hrestore =>
    cases h
    rw [not_or] at hpay
    exact ⟨_, .declared hpay.1 hpay.2 hvrf hrestore, rfl, ⟨fun _ => Iff.rfl, rfl⟩⟩

/-! Commands have different hashes, so a command has one kind of roster. -/

theorem command_ne {c d : OpCommand} (hcmd : data.opCommand = op.commandHash c) (hne : d ≠ c) :
    ¬ data.opCommand = op.commandHash d :=
  fun h => hne (op.commandHash_injective (h.symm.trans hcmd))

namespace Authority

variable {roster : List Address} {t : UInt64}

theorem of_payment (hcmd : data.opCommand = op.commandHash .pay ∨ data.opCommand = op.commandHash .reissue)
    (h : Authority op node ws data roster t) :
    ∃ walletID info, node.parsePaymentInstruction data = .ok walletID ∧ ws.walletInfo walletID = .ok info ∧
      roster = info.configConstants.cosigners ∧ t = info.configConstants.cosignersThreshold := by
  have hne : ∀ c, c ≠ .pay → c ≠ .reissue → ¬ data.opCommand = op.commandHash c := by
    intro c hpay hreissue
    rcases hcmd with hcmd | hcmd
    · exact command_ne hcmd hpay
    · exact command_ne hcmd hreissue
  cases h with
  | payment _ hid hinfo => exact ⟨_, _, hid, hinfo, rfl, rfl⟩
  | vrf hvrf => exact absurd hvrf (hne _ (by simp) (by simp))
  | restore hrestore => exact absurd hrestore (hne _ (by simp) (by simp))
  | declared hpay hreissue => exact absurd hcmd (not_or.mpr ⟨hpay, hreissue⟩)

theorem of_vrf (hcmd : data.opCommand = op.commandHash .vrf) (h : Authority op node ws data roster t) :
    ∃ id info, node.parseVRFInstruction data = .ok id ∧ ws.walletInfo id.walletID = .ok info ∧
      roster = info.configConstants.cosigners ∧ t = info.configConstants.cosignersThreshold := by
  cases h with
  | payment hpay => exact absurd hpay (not_or.mpr ⟨command_ne hcmd (by simp), command_ne hcmd (by simp)⟩)
  | vrf _ hid hinfo => exact ⟨_, _, hid, hinfo, rfl, rfl⟩
  | restore hrestore => exact absurd hrestore (command_ne hcmd (by simp))
  | declared _ _ hvrf => exact absurd hcmd hvrf

theorem of_restore (hcmd : data.opCommand = op.commandHash .keyDataProviderRestore)
    (h : Authority op node ws data roster t) :
    ∃ backup, node.unmarshalBackupMetaData data.additionalFixedMessage = .ok backup ∧
      node.pubKeysToAddresses backup.adminsPublicKeys = .ok roster ∧ t = backup.adminsThreshold := by
  cases h with
  | payment hpay => exact absurd hpay (not_or.mpr ⟨command_ne hcmd (by simp), command_ne hcmd (by simp)⟩)
  | vrf hvrf => exact absurd hvrf (command_ne hcmd (by simp))
  | restore _ hb ha => exact ⟨_, hb, ha, rfl⟩
  | declared _ _ _ hrestore => exact absurd hcmd hrestore

end Authority

/-! ## VRF instructions

A VRF instruction names a key, but its roster is read off the wallet: it is
that of the first key listed for the wallet, whichever key that is. -/

/-- The declared roster is that of a key. -/
def DeclaresKey (data : DataFixed) (key : Wallets.KeyData) : Prop :=
  Declares data key.info.configConstants.cosigners key.info.configConstants.cosignersThreshold

/-- Two keys have the same roster. -/
def SameRoster (key key' : Wallets.KeyData) : Prop :=
  (∀ a, a ∈ key.info.configConstants.cosigners ↔ a ∈ key'.info.configConstants.cosigners) ∧
    key.info.configConstants.cosignersThreshold = key'.info.configConstants.cosignersThreshold

theorem DeclaresKey.sameRoster {key key' : Wallets.KeyData} (h : DeclaresKey data key) :
    DeclaresKey data key' ↔ SameRoster key key' := by
  refine ⟨fun h' => ⟨fun a => ?_, ?_⟩, fun hs => ⟨fun a => ?_, ?_⟩⟩
  · rw [← h.set a, h'.set a]
  · rw [← h.threshold, h'.threshold]
  · rw [h.set a, hs.1 a]
  · rw [h.threshold, hs.2]

/-- The first key listed for a wallet, where it is cached. -/
def FirstKey (ws : Wallets.Cache) (walletID : Hash) (key : Wallets.KeyData) : Prop :=
  ∃ k, (ws.keyIDs walletID).head? = some k ∧ ws.keys.get? ⟨walletID, k⟩ = some key

theorem walletInfo_ok_iff {walletID : Hash} {info : Wallets.KeyExistence} :
    ws.walletInfo walletID = .ok info ↔ ∃ key, FirstKey ws walletID key ∧ key.info = info := by
  unfold Wallets.Cache.walletInfo FirstKey Wallets.Cache.keyIDs
  split
  next hnone => simp [hnone]
  next hnil => simp [hnil]
  next k l hl =>
    cases hkey : ws.keys.get? ⟨walletID, k⟩ with
    | none => simp [hl, hkey]
    | some key => simp [hl, hkey]

theorem cosignersOf_vrf_ok_iff {id : Wallets.IDPair} (hcmd : data.opCommand = op.commandHash .vrf)
    (hid : node.parseVRFInstruction data = .ok id) :
    (∃ r, cosignersOf op node ws data = .ok r) ↔
      data.cosigners.Nodup ∧ ∃ key, FirstKey ws id.walletID key ∧ DeclaresKey data key := by
  constructor
  · rintro ⟨r, h⟩
    obtain ⟨hnodup, roster, ha, -, hd⟩ := cosignersOf_ok h
    obtain ⟨id', info, hid', hinfo, hroster, ht⟩ := ha.of_vrf hcmd
    rw [hid] at hid'
    cases hid'
    obtain ⟨key, hkey, rfl⟩ := walletInfo_ok_iff.mp hinfo
    rw [hroster, ht] at hd
    exact ⟨hnodup, key, hkey, hd⟩
  · rintro ⟨hnodup, key, hkey, hd⟩
    have hdup : ¬ node.hasDuplicateAddresses data.cosigners = true :=
      fun hdup => (node.hasDuplicateAddresses_iff _).mp hdup hnodup
    have hresolved : vrfCosigners node ws data =
        .ok (toSet key.info.configConstants.cosigners, key.info.configConstants.cosignersThreshold) := by
      simp only [vrfCosigners, walletCosigners, Except.bind_ok_iff, Except.mapError_ok_iff, Except.pure_ok_iff]
      exact ⟨id, hid, key.info, walletInfo_ok_iff.mpr ⟨key, hkey, rfl⟩, rfl⟩
    refine ⟨(toSet key.info.configConstants.cosigners, key.info.configConstants.cosignersThreshold), ?_⟩
    unfold cosignersOf
    rw [if_neg hdup, if_neg (not_or.mpr ⟨command_ne hcmd (by simp), command_ne hcmd (by simp)⟩), if_pos hcmd,
      hresolved]
    exact (declared_ok_iff hnodup).mpr ⟨hd, rfl⟩

/-- **When a VRF instruction is checked against the roster of its key.** Where
`meta.Cosigners` succeeds, the named key is cached and the declared roster is
its own, exactly if the named key is cached with the roster of the first key
listed for the wallet whenever an instruction declares that first roster. -/
theorem vrf_roster_iff {id : Wallets.IDPair} (hcmd : data.opCommand = op.commandHash .vrf)
    (hid : node.parseVRFInstruction data = .ok id) :
    ((∃ r, cosignersOf op node ws data = .ok r) →
      ∃ key, ws.keys.get? id = some key ∧ DeclaresKey data key) ↔
    (∀ first, FirstKey ws id.walletID first → data.cosigners.Nodup → DeclaresKey data first →
      ∃ key, ws.keys.get? id = some key ∧ SameRoster first key) := by
  rw [cosignersOf_vrf_ok_iff hcmd hid]
  constructor
  · intro h first hfirst hnodup hd
    obtain ⟨key, hkey, hd'⟩ := h ⟨hnodup, first, hfirst, hd⟩
    exact ⟨key, hkey, hd.sameRoster.mp hd'⟩
  · rintro h ⟨hnodup, first, hfirst, hd⟩
    obtain ⟨key, hkey, hsame⟩ := h first hfirst hnodup hd
    exact ⟨key, hkey, hd.sameRoster.mpr hsame⟩

end Accepted

/-- Keys of wallet 1 with one cosigner: a proof is the key ID and the cosigner. -/
def plainWallets : Wallets.WalletPkg :=
  { Wallets.WalletPkg.bytes with
    decodeKeyExistence := fun data =>
      .ok ⟨1, (data.headD 0).toUInt64, some 0, ⟨[.ofNat 160 (data.getD 1 0).toNat], 1⟩⟩ }

/-- A VRF message is the key ID, of wallet 1. -/
def plainVRF : NodePkg :=
  { NodePkg.blank with parseVRFInstruction := fun data => .ok ⟨1, (data.originalMessage.headD 0).toUInt64⟩ }

/-- The data of a VRF instruction. -/
def vrfData (keyID : UInt8) (cosigner : Address) : DataFixed :=
  ⟨1, 0, 0, 0, 0, OpPkg.numbered.commandHash .vrf, [cosigner], 1, [keyID], []⟩

/-- Two keys are generated, with the cosigners given. -/
def twoKeys (cosigner cosigner' : UInt8) : List Wallets.Write :=
  [.update (Wallets.plainResult .wallet .keyGenerate [7, cosigner]),
    .update (Wallets.plainResult .wallet .keyGenerate [8, cosigner'])]

/-- What a key generated with one cosigner is stored as. -/
def oneCosigner (keyID cosigner : UInt8) : Wallets.KeyData :=
  ⟨⟨1, keyID.toUInt64, some 0, ⟨[.ofNat 160 cosigner.toNat], 1⟩⟩, ⟨[keyID, cosigner], []⟩⟩

theorem vrf_roster_oneRoster :
    ∃ c, Lts.Reach (Wallets.writes .numbered plainWallets) Lts.Free c ∧
      (∃ r, cosignersOf .numbered plainVRF c (vrfData 8 5) = .ok r) ∧
      ∃ key, c.keys.get? ⟨1, 8⟩ = some key ∧ DeclaresKey (vrfData 8 5) key := by
  have hrun : ((Wallets.writes .numbered plainWallets).run .empty (twoKeys 5 5)).any (fun c =>
      c.keyIDs 1 = [7, 8] ∧ c.keys.get? ⟨1, 7⟩ = some (oneCosigner 7 5) ∧
        c.keys.get? ⟨1, 8⟩ = some (oneCosigner 8 5)) := by
    decide +kernel
  obtain ⟨c, hc, hend⟩ := (Option.any_eq_true _ _).mp hrun
  obtain ⟨hids, hseven, height⟩ := of_decide_eq_true hend
  have hfirst : ∀ first, FirstKey c 1 first → first = oneCosigner 7 5 := by
    rintro first ⟨k, hk, hget⟩
    rw [hids] at hk
    cases hk
    rw [hseven] at hget
    exact (Option.some.inj hget).symm
  have hok : ∃ r, cosignersOf .numbered plainVRF c (vrfData 8 5) = .ok r :=
    (cosignersOf_vrf_ok_iff rfl rfl).mpr
      ⟨by decide, oneCosigner 7 5, ⟨7, by rw [hids]; rfl, hseven⟩, ⟨fun _ => Iff.rfl, rfl⟩⟩
  refine ⟨c, .of_run (.init rfl) (fun _ _ _ => trivial) hc, hok, ?_⟩
  have hid : plainVRF.parseVRFInstruction (vrfData 8 5) = .ok ⟨1, 8⟩ := rfl
  refine (vrf_roster_iff rfl hid).mpr (fun first hf _ _ => ?_) hok
  rw [hfirst first hf]
  exact ⟨_, height, fun _ => Iff.rfl, rfl⟩

/-- The first key of the wallet has another roster. An instruction that names
the second key passes with the roster of the first, and so does one that
names a key that is not there. -/
theorem vrf_roster_of_first_key :
    ∃ c, Lts.Reach (Wallets.writes .numbered plainWallets) Lts.Free c ∧
      (∃ r, cosignersOf .numbered plainVRF c (vrfData 8 5) = .ok r) ∧
      (∃ key, c.keys.get? ⟨1, 8⟩ = some key ∧ ¬ DeclaresKey (vrfData 8 5) key) ∧
      (∃ r, cosignersOf .numbered plainVRF c (vrfData 9 5) = .ok r) ∧ c.keys.get? ⟨1, 9⟩ = none := by
  have hrun : ((Wallets.writes .numbered plainWallets).run .empty (twoKeys 5 6)).any (fun c =>
      c.keyIDs 1 = [7, 8] ∧ c.keys.get? ⟨1, 7⟩ = some (oneCosigner 7 5) ∧
        c.keys.get? ⟨1, 8⟩ = some (oneCosigner 8 6) ∧ c.keys.get? ⟨1, 9⟩ = none) := by
    decide +kernel
  obtain ⟨c, hc, hend⟩ := (Option.any_eq_true _ _).mp hrun
  obtain ⟨hids, hseven, height, hnine⟩ := of_decide_eq_true hend
  have hok : ∀ keyID, ∃ r, cosignersOf .numbered plainVRF c (vrfData keyID 5) = .ok r := fun keyID =>
    (cosignersOf_vrf_ok_iff rfl rfl).mpr
      ⟨List.nodup_singleton _, oneCosigner 7 5, ⟨7, by rw [hids]; rfl, hseven⟩, ⟨fun _ => Iff.rfl, rfl⟩⟩
  refine ⟨c, .of_run (.init rfl) (fun _ _ _ => trivial) hc, hok 8, ⟨_, height, fun hd => ?_⟩, hok 9, hnine⟩
  have hmem : (5 : Address) ∈ [(6 : Address)] := (hd.set 5).mp (List.mem_singleton_self _)
  exact absurd hmem (by decide)

end TeeProxy.Meta
