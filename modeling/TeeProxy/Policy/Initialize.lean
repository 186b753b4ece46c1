/-
The restart of the policy service (`Service.Initialize` of
`internal/service/policy/policy.go`, where the node already has a policy):
the policies of the last epochs are loaded again, oldest first, and epochs
the indexer does not have are skipped.

The loop counts in uint32, `for id := startID; id <= lastID; id++`. Where
`lastID` is the largest uint32 its condition never fails, so the model takes
fuel.
-/
import TeeProxy.Policy.Update

namespace TeeProxy.Policy

inductive InitErr
  | loading (id : UInt32) (e : FetchErr)
  | policyEventMissing (lastID : UInt32)
  deriving DecidableEq, Repr

section Restart

variable {Log Init : Type} (pkg : PolicyPkg Log Init) (rows : UInt32 → Except PkgErr (List Log))

/-- The loop of `Initialize`; `rows` is what the indexer answers for an ID. -/
def backfill (lastID : UInt32) : Nat → UInt32 → List SigningPolicy → Option (Except InitErr (List SigningPolicy))
  | 0, _, _ => none
  | fuel + 1, id, policies =>
    if id ≤ lastID then
      match fetchSigningPolicy pkg (rows id) id with
      | .error e => some (.error (.loading id e))
      | .ok none =>
        if id = lastID then some (.error (.policyEventMissing lastID)) else backfill lastID fuel (id + 1) policies
      | .ok (some p) => backfill lastID fuel (id + 1) (policies ++ [p])
    else some (.ok policies)

/-- The policies `Initialize` loads on a restart. -/
def restartPolicies (offset : Nat) (lastID : UInt32) (fuel : Nat) : Option (Except InitErr (List SigningPolicy)) :=
  let back := min (UInt32.ofNat offset) lastID
  backfill pkg rows lastID fuel (lastID - back) []

end Restart

/-! ## What is loaded -/

/-- Policies of ascending epochs from `lo` to `lastID`. -/
structure Backfilled (lo lastID : UInt32) (policies : List SigningPolicy) : Prop where
  ascending : (policies.map (·.rewardEpochID)).Pairwise (· < ·)
  range : ∀ p ∈ policies, lo ≤ p.rewardEpochID ∧ p.rewardEpochID ≤ lastID
  last : (policies.map (·.rewardEpochID)).getLast? = some lastID

/-- The policies loaded before `id`. -/
structure LoadedBelow (lo lastID id : UInt32) (policies : List SigningPolicy) : Prop where
  ascending : (policies.map (·.rewardEpochID)).Pairwise (· < ·)
  range : ∀ p ∈ policies, lo ≤ p.rewardEpochID ∧ p.rewardEpochID < id
  reached : id.toNat ≤ lastID.toNat + 1
  from_lo : lo ≤ id
  last : id.toNat = lastID.toNat + 1 → (policies.map (·.rewardEpochID)).getLast? = some lastID

section Loaded

variable {Log Init : Type} {pkg : PolicyPkg Log Init} {rows : UInt32 → Except PkgErr (List Log)}
  {lo lastID id : UInt32} {policies : List SigningPolicy}

theorem toNat_add_one (hid : id.toNat + 1 < 2 ^ 32) : (id + 1).toNat = id.toNat + 1 := by
  rw [UInt32.toNat_add, UInt32.toNat_one]
  omega

theorem LoadedBelow.skipped (h : LoadedBelow lo lastID id policies) (hmax : lastID.toNat + 1 < 2 ^ 32)
    (hid : id ≤ lastID) (hne : id ≠ lastID) : LoadedBelow lo lastID (id + 1) policies := by
  have hlt : id.toNat < lastID.toNat := by
    have hle := UInt32.le_iff_toNat_le.mp hid
    have : id.toNat ≠ lastID.toNat := fun heq => hne (UInt32.toNat_inj.mp heq)
    omega
  have hadd : (id + 1).toNat = id.toNat + 1 := toNat_add_one (by omega)
  refine ⟨h.ascending, fun p hp => ⟨(h.range p hp).1, ?_⟩, by omega, ?_, fun heq => by omega⟩
  · have := UInt32.lt_iff_toNat_lt.mp (h.range p hp).2
    exact UInt32.lt_iff_toNat_lt.mpr (by omega)
  · have := UInt32.le_iff_toNat_le.mp h.from_lo
    exact UInt32.le_iff_toNat_le.mpr (by omega)

theorem LoadedBelow.loaded (h : LoadedBelow lo lastID id policies) (hmax : lastID.toNat + 1 < 2 ^ 32)
    (hid : id ≤ lastID) {p : SigningPolicy} (hp : p.rewardEpochID = id) :
    LoadedBelow lo lastID (id + 1) (policies ++ [p]) := by
  have hle := UInt32.le_iff_toNat_le.mp hid
  have hadd : (id + 1).toNat = id.toNat + 1 := toNat_add_one (by omega)
  have hstep : ∀ e : UInt32, e ≤ id → e < id + 1 := fun e he => by
    have := UInt32.le_iff_toNat_le.mp he
    exact UInt32.lt_iff_toNat_lt.mpr (by omega)
  refine ⟨?_, fun q hq => ?_, by omega, ?_, fun heq => ?_⟩
  · rw [List.map_append, List.pairwise_append]
    refine ⟨h.ascending, List.pairwise_singleton _ _, fun a ha b hb => ?_⟩
    obtain ⟨q, hq, rfl⟩ := List.mem_map.mp ha
    rw [List.map_singleton, List.mem_singleton, hp] at hb
    rw [hb]
    exact (h.range q hq).2
  · rcases List.mem_append.mp hq with hq | hq
    · exact ⟨(h.range q hq).1, hstep _ (UInt32.le_of_lt (h.range q hq).2)⟩
    · rw [List.mem_singleton.mp hq, hp]
      exact ⟨h.from_lo, hstep _ (UInt32.le_refl _)⟩
  · exact UInt32.le_trans h.from_lo (UInt32.le_of_lt (hstep _ (UInt32.le_refl _)))
  · have : id = lastID := UInt32.toNat_inj.mp (by omega)
    simp [hp, this]

/-- The loop returns what it has loaded when it has passed `lastID`. -/
theorem backfill_ok (hmax : lastID.toNat + 1 < 2 ^ 32) {result : List SigningPolicy} :
    ∀ {fuel : Nat} {id : UInt32} {policies : List SigningPolicy}, LoadedBelow lo lastID id policies →
      backfill pkg rows lastID fuel id policies = some (.ok result) → Backfilled lo lastID result
  | 0, _, _, _, h => by cases h
  | fuel + 1, id, policies, hl, h => by
    unfold backfill at h
    split at h
    next hid =>
      split at h
      · cases h
      · split at h
        · cases h
        next hne => exact backfill_ok hmax (hl.skipped hmax hid hne) h
      next p hp => exact backfill_ok hmax (hl.loaded hmax hid (fetchSigningPolicy_some hp)) h
    next hid =>
      cases h
      have hgt : ¬ id.toNat ≤ lastID.toNat := fun hle => hid (UInt32.le_iff_toNat_le.mpr hle)
      have hreached := hl.reached
      refine ⟨hl.ascending, fun p hp => ⟨(hl.range p hp).1, ?_⟩, hl.last (by omega)⟩
      have := UInt32.lt_iff_toNat_lt.mp (hl.range p hp).2
      exact UInt32.le_iff_toNat_le.mpr (by omega)

/-- At the largest uint32 the loop does not end with policies. -/
theorem backfill_max {result : List SigningPolicy} (hmax : ¬ lastID.toNat + 1 < 2 ^ 32) :
    ∀ {fuel : Nat} {id : UInt32} {policies : List SigningPolicy},
      backfill pkg rows lastID fuel id policies ≠ some (.ok result)
  | 0, _, _, h => by cases h
  | fuel + 1, id, policies, h => by
    have hid : id ≤ lastID := UInt32.le_iff_toNat_le.mpr (by have := id.toNat_lt; omega)
    unfold backfill at h
    rw [if_pos hid] at h
    split at h
    · cases h
    · split at h
      · cases h
      · exact backfill_max hmax h
    · exact backfill_max hmax h

theorem back_le (offset : Nat) (lastID : UInt32) :
    (min (UInt32.ofNat offset) lastID).toNat ≤ lastID.toNat ∧ (min (UInt32.ofNat offset) lastID).toNat ≤ offset := by
  have hmod : (UInt32.ofNat offset).toNat ≤ offset := by
    rw [UInt32.toNat_ofNat']
    exact Nat.mod_le _ _
  have hmin : min (UInt32.ofNat offset) lastID = if UInt32.ofNat offset ≤ lastID then UInt32.ofNat offset else lastID :=
    rfl
  rw [hmin]
  split
  next hle => exact ⟨UInt32.le_iff_toNat_le.mp hle, hmod⟩
  next hle =>
    have : ¬ (UInt32.ofNat offset).toNat ≤ lastID.toNat := fun h => hle (UInt32.le_iff_toNat_le.mpr h)
    exact ⟨le_rfl, by omega⟩

theorem startID_toNat (offset : Nat) (lastID : UInt32) :
    (lastID - min (UInt32.ofNat offset) lastID).toNat = lastID.toNat - (min (UInt32.ofNat offset) lastID).toNat :=
  UInt32.toNat_sub_of_le _ _ (UInt32.le_iff_toNat_le.mpr (back_le offset lastID).1)

/-- **What a restart loads**: epochs in ascending order, the last of them the
node's, all within `offset` of it. -/
theorem restartPolicies_ok {offset fuel : Nat} (h : restartPolicies pkg rows offset lastID fuel = some (.ok policies)) :
    (policies.map (·.rewardEpochID)).Pairwise (· < ·) ∧
      (policies.map (·.rewardEpochID)).getLast? = some lastID ∧
      ∀ p ∈ policies, p.rewardEpochID ≤ lastID ∧ lastID.toNat ≤ p.rewardEpochID.toNat + offset := by
  by_cases hmax : lastID.toNat + 1 < 2 ^ 32
  · have hback := back_le offset lastID
    have hstart := startID_toNat offset lastID
    have hl : LoadedBelow (lastID - min (UInt32.ofNat offset) lastID) lastID
        (lastID - min (UInt32.ofNat offset) lastID) [] :=
      ⟨.nil, fun p hp => (by cases hp), by omega, UInt32.le_refl _, fun heq => by omega⟩
    have hb := backfill_ok hmax hl h
    refine ⟨hb.ascending, hb.last, fun p hp => ⟨(hb.range p hp).2, ?_⟩⟩
    have := UInt32.le_iff_toNat_le.mp (hb.range p hp).1
    omega
  · exact absurd h (backfill_max hmax)

end Loaded

end TeeProxy.Policy
