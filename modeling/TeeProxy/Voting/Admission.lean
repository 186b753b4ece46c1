/-
What `startVoteBox` lets in: the event's time, the cosigner gate and the
threshold of an FDC2 proof.

The timestamp of an instruction is a uint64 that becomes an int64 and then a
Go time. A timestamp from `2^63 - 62135596800` on wraps around on that way
and is read as a time before 1970, so the check for future events lets it
pass.
-/
import TeeProxy.Meta.Roster
import TeeProxy.Voting.Storage

namespace TeeProxy.Voting

open GoTime (Time Duration)

variable {dep : Deps} {cfg : Config} {policy : SigningPolicy} {limiter : Limiter} {call : Call} {clock : Clock}
  {now : Time}

/-! ## Events of the future -/

/-- The event is more than the allowed slack ahead of the clock, in exact
nanoseconds. -/
def InFuture (now : Time) (timestamp : UInt64) : Prop :=
  now.unixNano + eventFutureSlack < timestamp.toNat * GoTime.second

/-- The timestamp is a Go time. -/
def InRange (timestamp : UInt64) : Prop := timestamp.toNat + GoTime.unixToInternal < 2 ^ 63

theorem slack_seconds (sec : Int) :
    (⟨sec, 0, none⟩ : Time).add (-eventFutureSlack) = (⟨sec, 0, none⟩ : Time).addSec (-(15 : Nat)) :=
  GoTime.add_of_none (by decide) (by decide)

theorem before_of_none (sec : Int) (hnow : now.Current) : now.before ⟨sec, 0, none⟩ = true ↔ now.sec < sec := by
  have hnsec : ¬ now.nsec < 0 := not_lt.mpr hnow.nsec_nonneg
  unfold Time.before
  cases now.mono <;> simp [hnsec]

/-- The check sees what is ahead of the clock, as far as it is a Go time. -/
theorem before_allowedTime_iff (hnow : now.Current) (timestamp : UInt64) :
    now.before ((GoTime.unix timestamp).add (-eventFutureSlack)) = true ↔ InRange timestamp ∧
      InFuture now timestamp := by
  have hepoch := hnow.epoch
  have hlo := hnow.nsec_nonneg
  have hhi := hnow.nsec_lt
  have hlt := timestamp.toNat_lt
  have hahead : InFuture now timestamp ↔ now.sec < timestamp.toNat + GoTime.unixToInternal - (15 : Nat) := by
    unfold InFuture Time.unixNano eventFutureSlack
    unfold GoTime.unixToInternal GoTime.second at *
    omega
  by_cases hrange : InRange timestamp
  · unfold InRange at hrange
    rw [GoTime.unix_of_lt hrange, slack_seconds]
    unfold GoTime.unixToInternal at hrange hepoch
    rw [GoTime.addSec_neg (by unfold GoTime.unixToInternal; omega) (by unfold GoTime.unixToInternal; omega) (by omega)
      (by omega), if_pos (by unfold GoTime.unixToInternal; omega), before_of_none _ hnow, hahead]
    exact ⟨fun h => ⟨hrange, h⟩, fun h => h.2⟩
  · have hwrapped := not_lt.mp hrange
    rw [GoTime.unix_of_ge hwrapped, slack_seconds]
    unfold GoTime.unixToInternal at hwrapped hepoch
    rw [GoTime.addSec_neg (by unfold GoTime.unixToInternal; omega) (by unfold GoTime.unixToInternal; omega) (by omega)
      (by omega), before_of_none _ hnow]
    refine ⟨fun h => ?_, fun h => absurd h.1 hrange⟩
    -- what wraps around is before 1970, and the clock is not
    exfalso
    revert h
    split
    · unfold GoTime.unixToInternal; omega
    · omega

theorem boxThreshold_ne_votingBeforeEvent (t : Int) : boxThreshold policy t ≠ .error .votingBeforeEvent := by
  intro h
  unfold boxThreshold at h
  split at h
  · split at h <;> cases h
  · split at h <;> cases h

theorem buildVoteBox_ne_votingBeforeEvent : buildVoteBox dep cfg policy call now ≠ .error .votingBeforeEvent := by
  intro h
  unfold buildVoteBox at h
  simp only [Except.bind_error_iff, Except.mapError_error_iff, Except.ite_throw_error_iff] at h
  rcases h with ⟨e, -, he⟩ | ⟨t, -, ht | ⟨threshold, -, ⟨e, -, he⟩ | ⟨roster, -, ⟨-, he⟩ | ⟨-, e, -, he⟩⟩⟩⟩
  · cases he
  · exact boxThreshold_ne_votingBeforeEvent t ht
  · cases he
  · cases he
  · cases he

/-- What the check for future events does, whatever comes after it. -/
theorem startVoteBox_votingBeforeEvent_iff :
    (startVoteBox dep cfg policy limiter call clock).2 = .error .votingBeforeEvent ↔
      clock.start.before ((GoTime.unix call.data.timestamp).add (-eventFutureSlack)) = true := by
  unfold startVoteBox
  split
  next hbefore => simp [hbefore]
  next hbefore =>
  refine iff_of_false ?_ hbefore
  split
  · simp
  split
  next e hb =>
    intro he
    cases he
    exact buildVoteBox_ne_votingBeforeEvent hb
  · simp

theorem startVoteBox_before
    (h : clock.start.before ((GoTime.unix call.data.timestamp).add (-eventFutureSlack)) = true) :
    startVoteBox dep cfg policy limiter call clock = (limiter, .error .votingBeforeEvent) := by
  unfold startVoteBox
  rw [if_pos h]

/-- **When future events are kept out.** An event more than 15 seconds ahead
of the clock is refused without touching the limiter, and no other event is
refused as one of the future, exactly if the timestamp is a Go time or is
not ahead. -/
theorem future_events_refused_iff (hnow : clock.start.Current) :
    ((InFuture clock.start call.data.timestamp →
        startVoteBox dep cfg policy limiter call clock = (limiter, .error .votingBeforeEvent)) ∧
      (¬ InFuture clock.start call.data.timestamp →
        (startVoteBox dep cfg policy limiter call clock).2 ≠ .error .votingBeforeEvent)) ↔
    (InRange call.data.timestamp ∨ ¬ InFuture clock.start call.data.timestamp) := by
  have hbefore := before_allowedTime_iff hnow call.data.timestamp
  constructor
  · rintro ⟨hrefused, -⟩
    by_cases hfuture : InFuture clock.start call.data.timestamp
    · have herr : (startVoteBox dep cfg policy limiter call clock).2 = .error .votingBeforeEvent := by
        rw [hrefused hfuture]
      exact .inl (hbefore.mp (startVoteBox_votingBeforeEvent_iff.mp herr)).1
    · exact .inr hfuture
  · intro hcond
    refine ⟨fun hfuture => ?_, fun hpast herr => ?_⟩
    · have hrange : InRange call.data.timestamp := hcond.resolve_right (not_not.mpr hfuture)
      exact startVoteBox_before (hbefore.mpr ⟨hrange, hfuture⟩)
    · exact hpast (hbefore.mp (startVoteBox_votingBeforeEvent_iff.mp herr)).2

theorem current_clockAt_100 : (clockAt 100).start.Current :=
  ⟨by decide, by decide, by decide, by decide⟩

def plainLimiter : Limiter := .new (twoVoters 7).voters.voters 2

theorem future_events_refused_near :
    InFuture (clockAt 100).start 116 ∧
      startVoteBox plainDeps plainConfig (twoVoters 7) plainLimiter (plainCall 7 1 116 1 []) (clockAt 100) =
        (plainLimiter, .error .votingBeforeEvent) := by
  have hfuture : InFuture (clockAt 100).start 116 := by unfold InFuture; decide +kernel
  have hrange : InRange 116 := by unfold InRange; decide +kernel
  have hiff := @future_events_refused_iff plainDeps plainConfig (twoVoters 7) plainLimiter (plainCall 7 1 116 1 [])
    (clockAt 100) current_clockAt_100
  exact ⟨hfuture, (hiff.mpr (.inl hrange)).1 hfuture⟩

/-- An event `2^63` seconds after 1970. -/
def distantCall : Call := plainCall 7 1 9223372036854775808 1 []

/-- At 100 seconds a box is opened for it. -/
theorem distant_event_admitted :
    (clockAt 100).start.Current ∧ InFuture (clockAt 100).start distantCall.data.timestamp ∧
      ∃ l box, startVoteBox plainDeps plainConfig (twoVoters 7) plainLimiter distantCall (clockAt 100) =
        (l, .ok box) := by
  have hfuture : InFuture (clockAt 100).start distantCall.data.timestamp := by unfold InFuture; decide +kernel
  have hopened : (startVoteBox plainDeps plainConfig (twoVoters 7) plainLimiter distantCall
      (clockAt 100)).2.toOption.isSome := by
    decide +kernel
  refine ⟨current_clockAt_100, hfuture, ?_⟩
  generalize startVoteBox plainDeps plainConfig (twoVoters 7) plainLimiter distantCall (clockAt 100) = r at hopened
  obtain ⟨box, hbox⟩ := Except.exists_ok_of_isSome hopened
  exact ⟨r.1, box, Prod.ext rfl hbox⟩

/-! ## The cosigner gate -/

/-- The gate of a box is a roster: its addresses as a set, its threshold as a
number. -/
structure GatedBy (box : VoteBox) (roster : List Address) (threshold : UInt64) : Prop where
  set : ∀ a, box.proposal.cosigners.get? a = if a ∈ roster then some true else none
  threshold : box.proposal.cosignerThreshold.toNat = threshold.toNat

theorem GatedBy.of_declares {box : VoteBox} {data : DataFixed} {roster : List Address} {t : UInt64}
    (h : GatedBy box data.cosigners data.cosignersThreshold) (hd : Meta.Declares data roster t) :
    GatedBy box roster t := by
  refine ⟨fun a => ?_, ?_⟩
  · rw [h.set a, if_congr (hd.set a) rfl rfl]
  · rw [h.threshold, hd.threshold]

variable {node : NodePkg} {ws : Wallets.Cache} {chainID : UInt64} {box : VoteBox}

/-- A box is gated by what the client signed, which is what its command is
checked against. -/
theorem gatedBy_of_buildVoteBox {q : ℚ} (hmeta : call.metadata = Meta.new dep.op node ws chainID)
    (hsize : checkSize dep.op call.data q = .ok ()) (h : buildVoteBox dep cfg policy call now = .ok box) :
    call.data.cosigners.Nodup ∧ GatedBy box call.data.cosigners call.data.cosignersThreshold ∧
      box.proposal.cosigners.size = call.data.cosigners.length ∧
      box.proposal.cosignerThreshold.toNat ≤ box.proposal.cosigners.size ∧
      ∃ roster t, Meta.Authority dep.op node ws call.data.toDataFixed roster t ∧
        Meta.Declares call.data.toDataFixed roster t := by
  obtain ⟨t, hcos, hle, hcut⟩ := (buildVoteBox_ok h).cosigners
  rw [hmeta] at hcos
  obtain ⟨hnodup, roster, hauth, hset, hd⟩ := Meta.cosignersOf_ok hcos
  dsimp only at hauth hset hd
  have hlen : box.proposal.cosigners.size = call.data.cosigners.length := by
    rw [hset]
    exact Meta.size_toSet hnodup hd.set
  -- the set has at most 1024 addresses, so the threshold is not cut
  have hmax := checkSize_cosigners hsize
  have hnat : box.proposal.cosignerThreshold.toNat = t.toNat := by
    rw [hcut, UInt64.toNat_toUInt16]
    unfold maxCosigners at hmax
    omega
  refine ⟨hnodup, ⟨fun a => ?_, ?_⟩, hlen, hnat ▸ hle, roster, t, hauth, hd⟩
  · rw [hset, Meta.get?_toSet, if_congr (hd.set a).symm rfl rfl]
  · rw [hnat, ← hd.threshold]

/-- **The gate is what was signed.** A box has the declared addresses, without
repeats, and the declared threshold, which the set can meet. For a payment
and a VRF that is the roster of the named wallet, for a restore the admins of
the backup. -/
theorem cosigner_gate {q : ℚ} (hmeta : call.metadata = Meta.new dep.op node ws chainID)
    (hsize : checkSize dep.op call.data q = .ok ()) (h : buildVoteBox dep cfg policy call now = .ok box) :
    call.data.cosigners.Nodup ∧ GatedBy box call.data.cosigners call.data.cosignersThreshold ∧
      box.proposal.cosigners.size = call.data.cosigners.length ∧
      box.proposal.cosignerThreshold.toNat ≤ box.proposal.cosigners.size ∧
      (call.data.opCommand = dep.op.commandHash .pay ∨ call.data.opCommand = dep.op.commandHash .reissue →
        ∃ walletID info, node.parsePaymentInstruction call.data.toDataFixed = .ok walletID ∧
          ws.walletInfo walletID = .ok info ∧
          GatedBy box info.configConstants.cosigners info.configConstants.cosignersThreshold) ∧
      (call.data.opCommand = dep.op.commandHash .vrf →
        ∃ id info, node.parseVRFInstruction call.data.toDataFixed = .ok id ∧ ws.walletInfo id.walletID = .ok info ∧
          GatedBy box info.configConstants.cosigners info.configConstants.cosignersThreshold) ∧
      (call.data.opCommand = dep.op.commandHash .keyDataProviderRestore →
        ∃ backup admins, node.unmarshalBackupMetaData call.data.additionalFixedMessage = .ok backup ∧
          node.pubKeysToAddresses backup.adminsPublicKeys = .ok admins ∧
          GatedBy box admins backup.adminsThreshold) := by
  obtain ⟨hnodup, hgate, hlen, hle, roster, t, hauth, hd⟩ := gatedBy_of_buildVoteBox hmeta hsize h
  have hroster : GatedBy box roster t := hgate.of_declares hd
  refine ⟨hnodup, hgate, hlen, hle, fun hcmd => ?_, fun hcmd => ?_, fun hcmd => ?_⟩
  · obtain ⟨walletID, info, hid, hinfo, rfl, rfl⟩ := hauth.of_payment hcmd
    exact ⟨walletID, info, hid, hinfo, hroster⟩
  · obtain ⟨id, info, hid, hinfo, rfl, rfl⟩ := hauth.of_vrf hcmd
    exact ⟨id, info, hid, hinfo, hroster⟩
  · obtain ⟨backup, hb, ha, rfl⟩ := hauth.of_restore hcmd
    exact ⟨backup, roster, hb, ha, hroster⟩

/-- A payment of wallet 1; a proof whose threshold is the first byte of the
message, in per cent. -/
def plainNode : NodePkg where
  FdcRequest := UInt16
  hasDuplicateAddresses := NodePkg.blank.hasDuplicateAddresses
  parsePaymentInstruction _ := .ok 1
  parseVRFInstruction := NodePkg.blank.parseVRFInstruction
  unmarshalBackupMetaData := NodePkg.blank.unmarshalBackupMetaData
  validateWalletMemberCounts := NodePkg.blank.validateWalletMemberCounts
  pubKeysToAddresses := NodePkg.blank.pubKeysToAddresses
  decodeRequest message := .ok ((message.headD 0).toUInt16 * 100)
  requestThresholdBIPS b := b
  hashMessage _ _ _ _ _ _ := .ok 0
  chainBoundRelayPrefixedHash := NodePkg.blank.chainBoundRelayPrefixedHash
  verifySignature := NodePkg.blank.verifySignature
  hasDuplicateAddresses_iff := NodePkg.blank.hasDuplicateAddresses_iff

/-- Wallet 1 has one key, with the cosigners 5 and 6, who both have to sign. -/
def cosignedWallet : Wallets.Cache :=
  Wallets.Cache.empty.put ⟨1, 7, some 0, ⟨[5, 6], 2⟩⟩ ⟨[], []⟩

/-- A call by voter 1 with the operation, the cosigners, their threshold and
the message given. -/
def cosignedCall (opType opCommand : Hash) (cosigners : List Address) (threshold : UInt64) (message : Bytes) :
    Call where
  data := ⟨⟨1, 0, 100, 7, opType, opCommand, cosigners, threshold, message, []⟩, []⟩
  signer := 1
  signature := []
  metadata := Meta.new .numbered plainNode cosignedWallet 0

/-- A payment that declares the wallet's roster, the other way round. -/
theorem cosigner_gate_payment :
    ∃ box, buildVoteBox plainDeps plainConfig (twoVoters 7)
        (cosignedCall 0 (OpPkg.numbered.commandHash .pay) [6, 5] 2 []) (clockAt 100).build = .ok box ∧
      GatedBy box [6, 5] 2 ∧ GatedBy box [5, 6] 2 := by
  have hopens : (buildVoteBox plainDeps plainConfig (twoVoters 7)
      (cosignedCall 0 (OpPkg.numbered.commandHash .pay) [6, 5] 2 []) (clockAt 100).build).toOption.isSome := by
    decide +kernel
  obtain ⟨box, hbox⟩ := Except.exists_ok_of_isSome hopens
  have hsize : checkSize plainDeps.op (cosignedCall 0 (OpPkg.numbered.commandHash .pay) [6, 5] 2 []).data 0 =
      .ok () := by
    decide +kernel
  obtain ⟨-, hsigned, -, -, hpay, -, -⟩ := cosigner_gate rfl hsize hbox
  obtain ⟨walletID, info, hid, hinfo, hroster⟩ := hpay (.inl rfl)
  cases hid
  have hfirst : cosignedWallet.walletInfo 1 = .ok ⟨1, 7, some 0, ⟨[5, 6], 2⟩⟩ := by decide +kernel
  rw [hfirst] at hinfo
  cases hinfo
  exact ⟨box, hbox, hsigned, hroster⟩

/-! ## The threshold of an FDC2 proof -/

theorem buildVoteBox_opens_iff :
    (∃ b, buildVoteBox dep cfg policy call now = .ok b) ↔
      (∃ t threshold, call.metadata.thresholdBIPS call.data.toDataFixed = .ok t ∧
        boxThreshold policy t = .ok threshold) ∧
      (∃ r, call.metadata.cosigners call.data.toDataFixed = .ok r ∧ r.2.toNat ≤ r.1.size) ∧
      (∃ h, dep.instruction.initialVoteHash call.data.toDataFixed = .ok h) ∧
      ∃ h, dep.instruction.hashFixed call.data.toDataFixed = .ok h := by
  simp only [buildVoteBox_ok_iff, newVoteBox_ok_iff]
  constructor
  · rintro ⟨b, t, threshold, cosigners, ct, ht, hth, hc, hle, voteHash, iHash, hi, hf, -⟩
    exact ⟨⟨t, threshold, ht, hth⟩, ⟨(cosigners, ct), hc, hle⟩, ⟨voteHash, hi⟩, iHash, hf⟩
  · rintro ⟨⟨t, threshold, ht, hth⟩, ⟨⟨cosigners, ct⟩, hc, hle⟩, ⟨voteHash, hi⟩, iHash, hf⟩
    exact ⟨_, t, threshold, cosigners, ct, ht, hth, hc, hle, voteHash, iHash, hi, hf, rfl⟩

/-- The rules a proof's threshold of `b` BIPS has to meet, with `c` of `n`
cosigners to sign. -/
def FdcRules (b c n : Nat) : Prop := 4000 ≤ b ∧ b < 10000 ∧ (5000 ≤ b ∨ n < 2 * c)

/-- The product with two cannot wrap where the set can meet the threshold. -/
theorem checkFDCThreshold_ok_iff {b : UInt16} {c : UInt64} {n : Nat} (hn : n < 2 ^ 63) (hc : c.toNat ≤ n) :
    Meta.checkFDCThreshold b c n = .ok () ↔ FdcRules b.toNat c.toNat n := by
  have hlow : b < Meta.fdcMinimumThresholdBIPS ↔ b.toNat < 4000 := UInt16.lt_iff_toNat_lt
  have hhalf : b < .ofNat (Meta.maxBIPS / 2) ↔ b.toNat < 5000 := UInt16.lt_iff_toNat_lt
  have hhigh : b ≥ .ofNat Meta.maxBIPS ↔ 10000 ≤ b.toNat := UInt16.le_iff_toNat_le
  have htwice : c * 2 ≤ .ofNat n ↔ 2 * c.toNat ≤ n := by
    rw [UInt64.le_iff_toNat_le, UInt64.toNat_mul, UInt64.toNat_ofNat_of_lt' (by simp [UInt64.size]; omega)]
    simp only [UInt64.reduceToNat]
    omega
  unfold Meta.checkFDCThreshold FdcRules
  rw [if_congr hlow rfl rfl, if_congr (and_congr hhalf htwice) rfl rfl, if_congr hhigh rfl rfl]
  split
  next h => exact iff_of_false (by simp) (by omega)
  split
  next h => exact iff_of_false (by simp) (by omega)
  split
  next h => exact iff_of_false (by simp) (by omega)
  next h => exact iff_of_true rfl (by omega)

/-- A weight is above the floored threshold exactly if it is above the
rational one. -/
theorem computeThreshold_lt_iff {total w : UInt16} {b : Nat} (hb : b < 10000) :
    computeThreshold total b < w ↔ total.toNat * b < 10000 * w.toNat := by
  have htotal := total.toNat_lt
  have hfits : total.toNat * b / 10000 < 2 ^ 16 := by
    have hle : total.toNat * b ≤ total.toNat * 10000 := Nat.mul_le_mul_left _ hb.le
    omega
  have hnat : (computeThreshold total b).toNat = total.toNat * b / 10000 := by
    unfold computeThreshold Meta.maxBIPS
    rw [UInt16.toNat_ofNat', Int.toNat_natCast]
    exact Nat.mod_eq_of_lt hfits
  rw [UInt16.lt_iff_toNat_lt, hnat, Nat.div_lt_iff_lt_mul (by decide), Nat.mul_comm w.toNat]

section Prove

variable {op : OpPkg} {data : DataFixed} {req : node.FdcRequest}

theorem thresholdBIPSOf_prove_ok_iff (htype : data.opType = op.typeHash .fdc2)
    (hcmd : data.opCommand = op.commandHash .prove) (hreq : node.decodeRequest data.originalMessage = .ok req)
    {t : Int} :
    Meta.thresholdBIPSOf op node data = .ok t ↔
      node.requestThresholdBIPS req = 0 ∧ t = -1 ∨
      node.requestThresholdBIPS req ≠ 0 ∧ t = (node.requestThresholdBIPS req).toNat ∧
        Meta.checkFDCThreshold (node.requestThresholdBIPS req) data.cosignersThreshold data.cosigners.length =
          .ok () := by
  unfold Meta.thresholdBIPSOf
  rw [if_pos ⟨htype, hcmd⟩]
  simp only [Except.bind_ok_iff, Except.mapError_ok_iff, hreq, Except.ok.injEq, exists_eq_left']
  split
  next hzero =>
    simp only [Except.pure_ok_iff, hzero, true_and, ne_eq, not_true_eq_false, false_and, or_false]
    exact eq_comm
  next hpos =>
    simp only [Except.bind_ok_iff, Except.pure_ok_iff, hpos, false_and, ne_eq, not_false_eq_true, true_and, false_or]
    exact ⟨fun ⟨_, hcheck, ht⟩ => ⟨ht.symm, hcheck⟩, fun ⟨ht, hcheck⟩ => ⟨(), hcheck, ht.symm⟩⟩

theorem cosignersOf_prove (hcmd : data.opCommand = op.commandHash .prove) (hnodup : data.cosigners.Nodup) :
    Meta.cosignersOf op node ws data = .ok (Meta.toSet data.cosigners, data.cosignersThreshold) := by
  unfold Meta.cosignersOf
  rw [if_neg fun hdup => (node.hasDuplicateAddresses_iff _).mp hdup hnodup,
    if_neg (not_or.mpr ⟨Meta.command_ne hcmd (by simp), Meta.command_ne hcmd (by simp)⟩),
    if_neg (Meta.command_ne hcmd (by simp)), if_neg (Meta.command_ne hcmd (by simp))]

end Prove

theorem boxThreshold_none_ok_iff {threshold : UInt16} :
    boxThreshold policy (-1) = .ok threshold ↔ policy.threshold ≠ 0 ∧ threshold = policy.threshold := by
  unfold boxThreshold
  rw [if_pos rfl]
  split
  next h => simp [h]
  next h => simp [h, eq_comm]

theorem boxThreshold_bips {b : Nat} (hb : b < 10000) :
    boxThreshold policy b = .ok (computeThreshold policy.voters.totalWeight b) := by
  unfold boxThreshold Meta.maxBIPS
  rw [if_neg (by omega), if_neg (by omega)]

/-- **The thresholds of an FDC2 proof.** A box is opened exactly if the set
can meet the cosigner threshold and either the header leaves the threshold to
the policy, which has one, or it is within the rules; and a weight passes the
box exactly if it is above the rational share of the total. A Go slice has
fewer than `2^63` elements. -/
theorem fdc_threshold_exact {req : node.FdcRequest} (hmeta : call.metadata = Meta.new dep.op node ws chainID)
    (htype : call.data.opType = dep.op.typeHash .fdc2) (hcmd : call.data.opCommand = dep.op.commandHash .prove)
    (hreq : node.decodeRequest call.data.originalMessage = .ok req) (hnodup : call.data.cosigners.Nodup)
    (hlen : call.data.cosigners.length < 2 ^ 63)
    (hinitial : ∃ h, dep.instruction.initialVoteHash call.data.toDataFixed = .ok h)
    (hfixed : ∃ h, dep.instruction.hashFixed call.data.toDataFixed = .ok h) :
    ((∃ b, buildVoteBox dep cfg policy call now = .ok b) ↔
      call.data.cosignersThreshold.toNat ≤ call.data.cosigners.length ∧
        (node.requestThresholdBIPS req = 0 ∧ policy.threshold ≠ 0 ∨
          FdcRules (node.requestThresholdBIPS req).toNat call.data.cosignersThreshold.toNat
            call.data.cosigners.length)) ∧
    ∀ b, buildVoteBox dep cfg policy call now = .ok b → node.requestThresholdBIPS req ≠ 0 →
      ∀ w : UInt16, b.proposal.threshold < w ↔
        policy.voters.totalWeight.toNat * (node.requestThresholdBIPS req).toNat < 10000 * w.toNat := by
  have hbips : call.metadata.thresholdBIPS call.data.toDataFixed =
      Meta.thresholdBIPSOf dep.op node call.data.toDataFixed := by
    rw [hmeta]
    rfl
  have hroster : call.metadata.cosigners call.data.toDataFixed =
      .ok (Meta.toSet call.data.cosigners, call.data.cosignersThreshold) := by
    rw [hmeta]
    exact cosignersOf_prove hcmd hnodup
  have hsize : (Meta.toSet call.data.cosigners).size = call.data.cosigners.length :=
    Meta.size_toSet hnodup fun _ => Iff.rfl
  constructor
  · rw [buildVoteBox_opens_iff]
    constructor
    · rintro ⟨⟨t, threshold, ht, hth⟩, ⟨r, hr, hle⟩, -⟩
      rw [hroster] at hr
      cases hr
      rw [hsize] at hle
      refine ⟨hle, ?_⟩
      rw [hbips, thresholdBIPSOf_prove_ok_iff htype hcmd hreq] at ht
      rcases ht with ⟨hzero, rfl⟩ | ⟨-, -, hcheck⟩
      · exact .inl ⟨hzero, (boxThreshold_none_ok_iff.mp hth).1⟩
      · exact .inr ((checkFDCThreshold_ok_iff hlen hle).mp hcheck)
    · rintro ⟨hle, hopen⟩
      refine ⟨?_, ⟨_, hroster, hsize ▸ hle⟩, hinitial, hfixed⟩
      simp only [hbips, thresholdBIPSOf_prove_ok_iff htype hcmd hreq]
      rcases hopen with ⟨hzero, hpolicy⟩ | hrules
      · exact ⟨-1, policy.threshold, .inl ⟨hzero, rfl⟩, boxThreshold_none_ok_iff.mpr ⟨hpolicy, rfl⟩⟩
      · have hpos : node.requestThresholdBIPS req ≠ 0 := by
          intro hzero
          rw [hzero] at hrules
          exact absurd hrules.1 (by decide)
        exact ⟨_, _, .inr ⟨hpos, rfl, (checkFDCThreshold_ok_iff hlen hle).mpr hrules⟩, boxThreshold_bips hrules.2.1⟩
  · intro b hb hpos w
    have hfresh := buildVoteBox_ok hb
    obtain ⟨t, ht, hth⟩ := hfresh.threshold
    obtain ⟨c, hc, hle, -⟩ := hfresh.cosigners
    rw [hroster, Except.ok.injEq, Prod.mk.injEq] at hc
    rw [← hc.1, ← hc.2, hsize] at hle
    rw [hbips, thresholdBIPSOf_prove_ok_iff htype hcmd hreq] at ht
    rcases ht with ⟨hzero, -⟩ | ⟨-, rfl, hcheck⟩
    · exact absurd hzero hpos
    · have hrules := (checkFDCThreshold_ok_iff hlen hle).mp hcheck
      rw [boxThreshold_bips hrules.2.1, Except.ok.injEq] at hth
      rw [← hth]
      exact computeThreshold_lt_iff hrules.2.1

/-- A proof with a threshold of 45%: two of the three cosigners have to sign,
and two of the total weight of four are enough. -/
theorem fdc_threshold_exact_45 :
    ∃ box, buildVoteBox plainDeps plainConfig (twoVoters 7)
        (cosignedCall (OpPkg.numbered.typeHash .fdc2) (OpPkg.numbered.commandHash .prove) [4, 5, 6] 2 [45])
        (clockAt 100).build = .ok box ∧
      ∀ w : UInt16, box.proposal.threshold < w ↔ 4 * 4500 < 10000 * w.toNat := by
  have hexact := @fdc_threshold_exact plainDeps plainConfig (twoVoters 7)
    (cosignedCall (OpPkg.numbered.typeHash .fdc2) (OpPkg.numbered.commandHash .prove) [4, 5, 6] 2 [45])
    (clockAt 100).build plainNode cosignedWallet 0 (4500 : UInt16) rfl rfl rfl rfl (by decide +kernel)
    (by decide +kernel) ⟨_, rfl⟩ ⟨_, rfl⟩
  obtain ⟨box, hbox⟩ := hexact.1.mpr ⟨by decide +kernel, .inr (by unfold FdcRules; decide +kernel)⟩
  exact ⟨box, hbox, hexact.2 box hbox (by decide)⟩

end TeeProxy.Voting
