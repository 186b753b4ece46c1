/-
Which rounds are resident. The cyclic buffer keeps the round of an epoch at
the slot `epoch % size`; a restart fills it with the last epochs the indexer
has, and then the epochs come one after the other. So the epoch that an
arriving one displaces is the one that just left the window of the last
`size` epochs, gaps of the backfill or not, and `OldestStoredEpoch`, which
scans that window downwards, finds the least resident epoch.

The scan runs over `uint32(size)` epochs. For a size of `2^32` or more that
is not the size, and the scan misses rounds that are resident.
-/
import TeeProxy.Policy.Initialize
import TeeProxy.Voting.Storage

namespace TeeProxy.Voting

/-! ## The scan -/

/-- The loop of `OldestStoredEpoch`, with `n` of its iterations to go. -/
def oldestFrom (present : UInt32 → Bool) (top : UInt32) : Nat → UInt32 → UInt32 × Bool → UInt32 × Bool
  | 0, _, found => found
  | n + 1, i, found =>
    if i > top then found
    else
      let e := top - i
      let found := if present e then (e, true) else found
      if e = 0 then found else oldestFrom present top n (i + 1) found

namespace Storage

variable {cyc : CyclicPkg}

/-- A round for the epoch is in the buffer. -/
def resident (s : Storage cyc) (e : UInt32) : Bool := (cyc.get s.cyclic e).isSome

def oldestStoredEpoch (s : Storage cyc) : UInt32 × Bool :=
  oldestFrom s.resident s.currentEpoch (UInt32.ofNat (cyc.size s.cyclic)).toNat 0 (0, false)

/-- The epochs a round was created for, in order. -/
def passed (s : Storage cyc) : List UInt32 := s.rounds.map (·.policy.rewardEpochID)

def newest? (s : Storage cyc) : Option UInt32 := s.passed.getLast?

end Storage

/-- The epochs `i` to `i + n - 1` below the top. -/
def InScan (top i : UInt32) (n : Nat) (e : UInt32) : Prop :=
  e.toNat + i.toNat ≤ top.toNat ∧ top.toNat < e.toNat + i.toNat + n

/-- The scan keeps the last present epoch it sees, which is the least. -/
theorem oldestFrom_spec {present : UInt32 → Bool} {top : UInt32} :
    ∀ {n : Nat} {i : UInt32} {found : UInt32 × Bool}, i.toNat + n < 2 ^ 32 →
      (oldestFrom present top n i found = found ∧ ∀ e, InScan top i n e → present e = false) ∨
      ∃ o, oldestFrom present top n i found = (o, true) ∧ present o = true ∧ InScan top i n o ∧
        ∀ e, InScan top i n e → present e = true → o ≤ e
  | 0, i, found, _ => .inl ⟨rfl, fun e he => by obtain ⟨h₁, h₂⟩ := he; omega⟩
  | n + 1, i, found, hn => by
    unfold oldestFrom
    split
    next hi =>
      have := UInt32.lt_iff_toNat_lt.mp hi
      exact .inl ⟨rfl, fun e he => by obtain ⟨h₁, -⟩ := he; omega⟩
    next hi =>
    have hle : i.toNat ≤ top.toNat := Nat.not_lt.mp fun h => hi (UInt32.lt_iff_toNat_lt.mpr h)
    have hsub : (top - i).toNat = top.toNat - i.toNat := UInt32.toNat_sub_of_le _ _ (UInt32.le_iff_toNat_le.mpr hle)
    have hadd : (i + 1).toNat = i.toNat + 1 := by rw [UInt32.toNat_add, UInt32.toNat_one]; omega
    -- the window is its topmost epoch and the window below it
    have hsplit : ∀ e, InScan top i (n + 1) e ↔ e = top - i ∨ InScan top (i + 1) n e := fun e => by
      rw [← UInt32.toNat_inj, InScan, InScan, hadd, hsub]
      omega
    have htop : ∀ {x : UInt32 × Bool}, x = (if present (top - i) then (top - i, true) else found) →
        (∀ e, InScan top (i + 1) n e → present e = false) →
        (x = found ∧ ∀ e, InScan top i (n + 1) e → present e = false) ∨
          ∃ o, x = (o, true) ∧ present o = true ∧ InScan top i (n + 1) o ∧
            ∀ e, InScan top i (n + 1) e → present e = true → o ≤ e := by
      intro x hx hrest
      cases hp : present (top - i) with
      | false =>
        refine .inl ⟨by rw [hx, hp]; rfl, fun e he => ?_⟩
        rcases (hsplit e).mp he with rfl | he
        · exact hp
        · exact hrest e he
      | true =>
        refine .inr ⟨top - i, by rw [hx, hp]; rfl, hp, (hsplit _).mpr (.inl rfl), fun e he hpe => ?_⟩
        rcases (hsplit e).mp he with rfl | he
        · exact UInt32.le_refl _
        · rw [hrest e he] at hpe; cases hpe
    dsimp only
    split
    next hz =>
      refine htop rfl fun e he => ?_
      have : (top - i).toNat = 0 := by rw [hz]; rfl
      obtain ⟨h₁, -⟩ := he
      omega
    next =>
      rcases oldestFrom_spec (n := n) (i := i + 1) (by omega) with ⟨heq, hrest⟩ | ⟨o, heq, hpo, hino, hleast⟩
      · exact htop heq hrest
      · refine .inr ⟨o, heq, hpo, (hsplit o).mpr (.inr hino), fun e he hpe => ?_⟩
        rcases (hsplit e).mp he with rfl | he
        · refine UInt32.le_iff_toNat_le.mpr ?_
          obtain ⟨h₁, -⟩ := hino
          omega
        · exact hleast e he hpe

/-! ## The window -/

/-- Within a window and one step, two epochs share a slot only if they are a
whole window apart. -/
theorem mod_eq_iff_of_near {a b size : Nat} (hlt : b < a) (hle : a ≤ b + size) :
    b % size = a % size ↔ a = b + size := by
  constructor
  · intro h
    obtain ⟨q, hq⟩ : size ∣ a - b := (Nat.modEq_iff_dvd' hlt.le).mp h
    rcases q with _ | _ | q
    · omega
    · omega
    · have : size * (q + 1 + 1) = size * q + size + size := by ring
      have : 0 < size := by omega
      have : size ≤ size * q + size := Nat.le_add_left _ _
      omega
  · rintro rfl
    exact (Nat.add_mod_right b size).symm

section Rounds

variable {cyc : CyclicPkg} {cfg : Config} {policies : List SigningPolicy} {s : Storage cyc}

/-- The buffer holds the rounds of the last `size` epochs, out of those that
were passed. -/
structure ResidencyOK (cfg : Config) (policies : List SigningPolicy) (s : Storage cyc) : Prop where
  size : cyc.size s.cyclic = cfg.historySize
  ascending : s.passed.Pairwise (· < ·)
  backfill : s.passed <+: policies.map (·.rewardEpochID) ∨ policies.map (·.rewardEpochID) <+: s.passed
  current : s.currentEpoch = s.newest?.getD 0
  get : ∀ e i, cyc.get s.cyclic e = some i ↔
    s.passed[i]? = some e ∧ ∀ m, s.newest? = some m → m.toNat < e.toNat + cfg.historySize

theorem residencyOK_new : ResidencyOK cfg policies (Storage.new cyc cfg) where
  size := cyc.size_new _
  ascending := .nil
  backfill := .inl (List.nil_prefix)
  current := rfl
  get e i := by simp [Storage.new, Storage.passed, cyc.get_new]

theorem Storage.le_newest (h : s.passed.Pairwise (· < ·)) {e m : UInt32} (he : e ∈ s.passed)
    (hm : s.newest? = some m) : e ≤ m := by
  obtain ⟨l, hl⟩ := List.getLast?_eq_some_iff.mp hm
  rw [hl] at he h
  rcases List.mem_append.mp he with he | he
  · exact UInt32.le_of_lt ((List.pairwise_append.mp h).2.2 e he m (List.mem_singleton_self m))
  · rw [List.mem_singleton.mp he]
    exact UInt32.le_refl m

theorem ResidencyOK.resident_iff (h : ResidencyOK cfg policies s) {m : UInt32} (hm : s.newest? = some m) (e : UInt32) :
    s.resident e = true ↔ e ∈ s.passed ∧ e ≤ m ∧ m.toNat < e.toNat + cfg.historySize := by
  rw [Storage.resident, Option.isSome_iff_exists]
  constructor
  · rintro ⟨i, hi⟩
    obtain ⟨hp, hw⟩ := (h.get e i).mp hi
    have hmem := List.mem_of_getElem? hp
    exact ⟨hmem, Storage.le_newest h.ascending hmem hm, hw m hm⟩
  · rintro ⟨hmem, -, hw⟩
    obtain ⟨i, hi⟩ := List.getElem?_of_mem hmem
    refine ⟨i, (h.get e i).mpr ⟨hi, fun m' hm' => ?_⟩⟩
    cases hm.symm.trans hm'
    exact hw

/-- A policy that may come next: the next one of the backfill, or, once that
is done, the one of the following epoch. -/
def Storage.Next (policies : List SigningPolicy) (s : Storage cyc) (p : SigningPolicy) : Prop :=
  policies[s.rounds.length]? = some p ∨
    policies.length ≤ s.rounds.length ∧ ∃ m, s.newest? = some m ∧ p.rewardEpochID.toNat = m.toNat + 1

/-- The policies of a restart, at a buffer of the size. -/
structure Backfill (size : Nat) (policies : List SigningPolicy) : Prop where
  ascending : (policies.map (·.rewardEpochID)).Pairwise (· < ·)
  near : ∀ p ∈ policies, ∀ q ∈ policies, q.rewardEpochID.toNat < p.rewardEpochID.toNat + size

/-- While the backfill is running, what was passed is its beginning. -/
theorem ResidencyOK.backfilling (h : ResidencyOK cfg policies s) {p : SigningPolicy}
    (hp : policies[s.rounds.length]? = some p) :
    s.passed ++ [p.rewardEpochID] <+: policies.map (·.rewardEpochID) := by
  have hlen : s.passed.length = s.rounds.length := List.length_map _
  have hpre : s.passed <+: policies.map (·.rewardEpochID) := by
    refine h.backfill.resolve_right fun hpre => ?_
    have hle := hpre.length_le
    rw [List.length_map] at hle
    have := (List.getElem?_eq_some_iff.mp hp).1
    omega
  obtain ⟨t, ht⟩ := hpre
  have hnext : t.head? = some p.rewardEpochID := by
    rw [List.head?_eq_getElem?, ← Nat.sub_self s.passed.length, ← List.getElem?_append_right le_rfl, ht,
      List.getElem?_map, hlen, hp]
    rfl
  obtain ⟨t', rfl⟩ := List.head?_eq_some_iff.mp hnext
  exact ⟨t', by rw [← ht]; simp⟩

/-- The next epoch is above all that were passed, and no more than a window
above those that are resident. -/
theorem ResidencyOK.next (h : ResidencyOK cfg policies s) (hb : Backfill cfg.historySize policies) {p : SigningPolicy}
    (hp : s.Next policies p) :
    (∀ e ∈ s.passed, e < p.rewardEpochID) ∧
      ∀ e ∈ s.passed, (∀ m, s.newest? = some m → m.toNat < e.toNat + cfg.historySize) →
        p.rewardEpochID.toNat ≤ e.toNat + cfg.historySize := by
  rcases hp with hp | ⟨-, m, hm, hnext⟩
  · have hpre := h.backfilling hp
    have hasc := List.pairwise_append.mp (hb.ascending.sublist hpre.sublist)
    refine ⟨fun e he => hasc.2.2 e he _ (List.mem_singleton_self _), fun e he _ => ?_⟩
    obtain ⟨q, hq, rfl⟩ := List.mem_map.mp (hpre.subset (List.mem_append_left _ he))
    exact (hb.near q hq p (List.mem_of_getElem? hp)).le
  · refine ⟨fun e he => ?_, fun e he hw => ?_⟩
    · have := UInt32.le_iff_toNat_le.mp (Storage.le_newest h.ascending he hm)
      exact UInt32.lt_iff_toNat_lt.mpr (by omega)
    · have := hw m hm
      omega

/-- The slot of the new epoch is that of the epoch a window below it: it is
displaced, and no other resident one. -/
theorem ResidencyOK.get_store (h : ResidencyOK cfg policies s) (hsize : 0 < cfg.historySize) {p : UInt32}
    (habove : ∀ e ∈ s.passed, e < p)
    (hnear : ∀ e ∈ s.passed, (∀ m, s.newest? = some m → m.toNat < e.toNat + cfg.historySize) →
      p.toNat ≤ e.toNat + cfg.historySize) (e : UInt32) (i : Nat) :
    cyc.get (cyc.store s.cyclic p s.passed.length) e = some i ↔
      (s.passed ++ [p])[i]? = some e ∧ p.toNat < e.toNat + cfg.historySize := by
  rw [cyc.get_store, h.size]
  by_cases he : e = p
  · subst he
    rw [if_pos rfl, List.getElem?_append]
    split
    next hlt =>
      refine ⟨fun hi => ?_, fun hi => absurd (habove _ (List.mem_of_getElem? hi.1)) (UInt32.lt_irrefl _)⟩
      cases hi
      omega
    next hge =>
      rw [List.getElem?_singleton, Option.some.injEq]
      refine ⟨fun hi => ⟨by rw [if_pos (by omega)], by omega⟩, fun hi => ?_⟩
      split at hi
      · omega
      · cases hi.1
  · have hold : (s.passed ++ [p])[i]? = some e ↔ s.passed[i]? = some e := by
      rw [List.getElem?_append]
      split
      · rfl
      next hge =>
        refine ⟨fun hi => absurd (List.mem_singleton.mp (List.mem_of_getElem? hi)) he, fun hi => ?_⟩
        have := (List.getElem?_eq_some_iff.mp hi).1
        omega
    have hslot : e ∈ s.passed → p.toNat ≤ e.toNat + cfg.historySize →
        (e.toNat % cfg.historySize = p.toNat % cfg.historySize ↔ p.toNat = e.toNat + cfg.historySize) :=
      fun hmem hle => mod_eq_iff_of_near (UInt32.lt_iff_toNat_lt.mp (habove e hmem)) hle
    rw [if_neg he, hold]
    split
    next hmod =>
      refine ⟨fun hi => (by cases hi), fun ⟨hi, hw⟩ => ?_⟩
      have := (hslot (List.mem_of_getElem? hi) hw.le).mp hmod
      omega
    next hmod =>
      rw [h.get]
      refine ⟨fun ⟨hi, hw⟩ => ⟨hi, ?_⟩, fun ⟨hi, hw⟩ => ⟨hi, fun m hm => ?_⟩⟩
      · have hmem := List.mem_of_getElem? hi
        have hle := hnear e hmem hw
        have hne : p.toNat ≠ e.toNat + cfg.historySize := fun heq => hmod ((hslot hmem hle).mpr heq)
        omega
      · have := UInt32.lt_iff_toNat_lt.mp (habove m (List.mem_of_getLast? hm))
        omega

theorem ResidencyOK.current_store (h : ResidencyOK cfg policies s) {p : UInt32} (habove : ∀ e ∈ s.passed, e < p) :
    (if p > s.currentEpoch then p else s.currentEpoch) = p := by
  rw [h.current]
  cases hm : s.newest? with
  | some m =>
    rw [Option.getD_some, if_pos (habove m (List.mem_of_getLast? hm))]
  | none =>
    rw [Option.getD_none]
    split
    · rfl
    next hz =>
      have hle : ¬ (0 : UInt32).toNat < p.toNat := fun hlt => hz (UInt32.lt_iff_toNat_lt.mpr hlt)
      refine (UInt32.toNat_inj.mp ?_).symm
      exact Nat.le_zero.mp (Nat.not_lt.mp hle)

theorem Storage.storeNewRound_new {p : SigningPolicy} (hres : s.resident p.rewardEpochID = false) :
    s.storeNewRound cfg p = { s with
      cyclic := cyc.store s.cyclic p.rewardEpochID s.rounds.length
      rounds := s.rounds ++ [createRound p cfg.maxPendingRequests cfg.collectVoters]
      currentEpoch := if p.rewardEpochID > s.currentEpoch then p.rewardEpochID else s.currentEpoch } := by
  rw [Storage.resident] at hres
  rw [Storage.storeNewRound, if_neg (by simp [hres])]

theorem Storage.storeNewRound_resident {p : SigningPolicy} (hres : s.resident p.rewardEpochID = true) :
    s.storeNewRound cfg p = s := by
  rw [Storage.resident] at hres
  rw [Storage.storeNewRound, if_pos hres]

/-- **The step.** The round of the next epoch displaces the one that leaves the
window, if it was there, and no other. -/
theorem ResidencyOK.stored (h : ResidencyOK cfg policies s) (hb : Backfill cfg.historySize policies)
    (hsize : 0 < cfg.historySize) {p : SigningPolicy} (hp : s.Next policies p)
    (hres : s.resident p.rewardEpochID = false) : ResidencyOK cfg policies (s.storeNewRound cfg p) := by
  obtain ⟨habove, hnear⟩ := h.next hb hp
  have hlen : s.passed.length = s.rounds.length := List.length_map _
  rw [Storage.storeNewRound_new hres]
  set s' : Storage cyc := { s with
    cyclic := cyc.store s.cyclic p.rewardEpochID s.rounds.length
    rounds := s.rounds ++ [createRound p cfg.maxPendingRequests cfg.collectVoters]
    currentEpoch := if p.rewardEpochID > s.currentEpoch then p.rewardEpochID else s.currentEpoch } with hs'
  have hpassed : s'.passed = s.passed ++ [p.rewardEpochID] := by simp [hs', Storage.passed, createRound]
  have hnewest : s'.newest? = some p.rewardEpochID := by rw [Storage.newest?, hpassed, List.getLast?_concat]
  refine ⟨(cyc.size_store _ _ _).trans h.size, ?_, ?_, ?_, fun e i => ?_⟩
  · rw [hpassed, List.pairwise_append]
    refine ⟨h.ascending, List.pairwise_singleton _ _, fun a ha b hb => ?_⟩
    rw [List.mem_singleton.mp hb]
    exact habove a ha
  · rw [hpassed]
    rcases hp with hp | ⟨hdone, -⟩
    · exact .inl (h.backfilling hp)
    · rcases h.backfill with hpre | hpre
      · rw [← hpre.eq_of_length_le (by rw [List.length_map, hlen]; exact hdone)]
        exact .inr (List.prefix_append _ _)
      · exact .inr (hpre.trans (List.prefix_append _ _))
  · rw [hnewest]
    exact h.current_store habove
  · rw [hpassed, hnewest]
    simp only [Option.some.injEq, forall_eq']
    rw [← h.get_store hsize habove hnear e i, hlen]

/-- Which rounds are resident depends on the buffer, the epochs and the
watermark only. -/
theorem ResidencyOK.congr {s' : Storage cyc} (h : ResidencyOK cfg policies s) (hc : s'.cyclic = s.cyclic)
    (hp : s'.passed = s.passed) (hcur : s'.currentEpoch = s.currentEpoch) : ResidencyOK cfg policies s' := by
  have hn : s'.newest? = s.newest? := by rw [Storage.newest?, hp]; rfl
  refine ⟨by rw [hc, h.size], by rw [hp]; exact h.ascending, by rw [hp]; exact h.backfill, ?_, fun e i => ?_⟩
  · rw [hcur, hn, h.current]
  · rw [hc, hp, hn, h.get]

end Rounds

/-! ## Every run -/

section Votes

variable {dep : Deps} {cfg : Config} {r r' : Round} {hash : Hash} {call : Call} {clock : Clock}
variable {cyc : CyclicPkg} {s s' : Storage cyc}

theorem Storage.passed_set {i : Nat} {rounds : List Round} (hr : s.rounds[i]? = some r) (hp : r'.policy = r.policy)
    (hs : rounds = s.rounds.set i r') : rounds.map (·.policy.rewardEpochID) = s.passed := by
  rw [hs, Storage.passed, List.map_set, hp]
  obtain ⟨hi, rfl⟩ := List.getElem?_eq_some_iff.mp hr
  refine List.ext_getElem? fun j => ?_
  rw [List.getElem?_set]
  split
  next hij => subst hij; simp [hi]
  next => rfl

theorem Storage.vote_currentEpoch {i : Nat} {res : Except VoteErr Voted}
    (h : s.vote dep cfg i hash call clock = some (s', res)) : s'.currentEpoch = s.currentEpoch := by
  unfold Storage.vote at h
  split at h
  · cases h
  split at h
  · cases h; rfl
  · cases h
    unfold Storage.recordConsensusEpoch
    repeat' split
    all_goals rfl

theorem Storage.vote_residency {i : Nat} {res : Except VoteErr Voted}
    (h : s.vote dep cfg i hash call clock = some (s', res)) :
    s'.cyclic = s.cyclic ∧ s'.passed = s.passed ∧ s'.currentEpoch = s.currentEpoch := by
  have hcur := Storage.vote_currentEpoch h
  cases res with
  | error e =>
    obtain ⟨r, r', hr, hc, rfl⟩ := Storage.vote_error h
    exact ⟨rfl, Storage.passed_set hr (Round.castVote_policy hc) rfl, hcur⟩
  | ok voted =>
    obtain ⟨r, r', r'', hr, hc, hm, hcyc, hrs⟩ := Storage.vote_ok h
    have hpolicy : r''.policy = r.policy := by
      have hcast := Round.castVote_policy hc
      cases hm
      exact hcast
    exact ⟨hcyc, Storage.passed_set hr hpolicy hrs, hcur⟩

end Votes

section Runs

variable {dep : Deps} {cyc : CyclicPkg} {cfg : Config} {policies : List SigningPolicy} {s s' : State cyc}

/-- The policies come as a restart and the update loop send them: the
backfill, then one epoch after the other, and at any time one of a resident
epoch again. -/
def Fed (cyc : CyclicPkg) (policies : List SigningPolicy) (s : State cyc) : Event → Prop
  | .storeNewRound p => s.storage.resident p.rewardEpochID = true ∨ s.storage.Next policies p
  | _ => True

/-- Votes, ends of boxes and sends leave the buffer, the epochs and the
watermark alone. -/
theorem step_residency {e : Event} (h : step dep cyc cfg s e = some s') (he : ∀ p, e ≠ .storeNewRound p) :
    s'.storage.cyclic = s.storage.cyclic ∧ s'.storage.passed = s.storage.passed ∧
      s'.storage.currentEpoch = s.storage.currentEpoch := by
  cases e with
  | storeNewRound p => exact absurd rfl (he p)
  | castVote n clock =>
    simp only [step] at h
    split at h
    · cases h
    split at h
    · cases h
    next hv => cases h; exact Storage.vote_residency hv
    next hv => cases h; exact Storage.vote_residency hv
  | scheduleEnd k =>
    cases step_inv h with
    | @ended _ r box hr _ _ =>
      have hp : (r.setBox k.id k.hash box.delete).policy = r.policy := rfl
      exact ⟨rfl, Storage.passed_set hr hp rfl, rfl⟩
  | addVote | send | cancel => cases step_inv h <;> exact ⟨rfl, rfl, rfl⟩

theorem residencyOK_of_reach (hb : Backfill cfg.historySize policies) (hsize : 0 < cfg.historySize)
    (h : Lts.Reach (system dep cyc cfg) (Fed cyc policies) s) : ResidencyOK cfg policies s.storage := by
  refine h.invariant (fun s => ResidencyOK cfg policies s.storage) ?_ ?_
  · rintro s rfl
    exact residencyOK_new
  · intro s e s' _ ih hok hs
    by_cases he : ∃ p, e = .storeNewRound p
    · obtain ⟨p, rfl⟩ := he
      cases hs
      cases hres : s.storage.resident p.rewardEpochID with
      | true =>
        dsimp only
        rw [Storage.storeNewRound_resident hres]
        exact ih
      | false => exact ih.stored hb hsize (hok.resolve_left (by simp [hres])) hres
    · obtain ⟨hc, hp, hcur⟩ := step_residency hs fun p heq => he ⟨p, heq⟩
      exact ih.congr hc hp hcur

/-- The scan covers the window where the size fits a uint32. -/
theorem ResidencyOK.oldest {s : Storage cyc} (h : ResidencyOK cfg policies s) (hsize : 0 < cfg.historySize)
    (hfits : cfg.historySize < 2 ^ 32) {m : UInt32} (hm : s.newest? = some m) :
    ∃ o, s.oldestStoredEpoch = (o, true) ∧ s.resident o = true ∧ ∀ e, s.resident e = true → o ≤ e := by
  have hcount : (UInt32.ofNat (cyc.size s.cyclic)).toNat = cfg.historySize := by
    rw [h.size, UInt32.toNat_ofNat']
    exact Nat.mod_eq_of_lt hfits
  have hscan : ∀ e, s.resident e = true → InScan s.currentEpoch 0 cfg.historySize e := by
    intro e he
    obtain ⟨-, hle, hw⟩ := (h.resident_iff hm e).mp he
    have := UInt32.le_iff_toNat_le.mp hle
    rw [InScan, h.current, hm, Option.getD_some, UInt32.toNat_zero]
    omega
  have hnewest : s.resident m = true :=
    (h.resident_iff hm m).mpr ⟨List.mem_of_getLast? hm, UInt32.le_refl m, by omega⟩
  rw [Storage.oldestStoredEpoch, hcount]
  have hend : (0 : UInt32).toNat + cfg.historySize < 2 ^ 32 := by
    rw [UInt32.toNat_zero]
    omega
  rcases @oldestFrom_spec s.resident s.currentEpoch _ _ (0, false) hend with ⟨-, hnone⟩ | ⟨o, heq, ho, -, hleast⟩
  · rw [hnone m (hscan m hnewest)] at hnewest
    cases hnewest
  · exact ⟨o, heq, ho, fun e he => hleast e (hscan e he) he⟩

/-- What `StoreNewRound` leaves of the rounds: a repeat changes nothing, and a
resident round is evicted or stays, as it is. -/
theorem storeNewRound_keeps (s : Storage cyc) (p : SigningPolicy) :
    (s.resident p.rewardEpochID = true → s.storeNewRound cfg p = s) ∧
      ∀ e i, cyc.get s.cyclic e = some i → (s.storeNewRound cfg p).resident e = true →
        cyc.get (s.storeNewRound cfg p).cyclic e = some i := by
  refine ⟨Storage.storeNewRound_resident, fun e i hget hres => ?_⟩
  cases hp : s.resident p.rewardEpochID with
  | true => rw [Storage.storeNewRound_resident hp]; exact hget
  | false =>
    rw [Storage.storeNewRound_new hp, Storage.resident, cyc.get_store] at hres
    rw [Storage.storeNewRound_new hp, cyc.get_store]
    split at hres
    next he =>
      rw [Storage.resident, ← he, hget] at hp
      cases hp
    next he =>
      rw [if_neg he]
      split at hres
      · cases hres
      next hmod => rw [if_neg hmod, hget]

/-- **Round residency**, for a buffer whose size fits a uint32, after every
restart and every sequence of epochs that follows, with votes in between: with
newest epoch `m`, the resident epochs are exactly the passed ones in
`(m - size, m]` and `OldestStoredEpoch` returns the least of them;
`StoreNewRound` of a resident epoch changes nothing, and that of another one
leaves every round in the buffer that it does not evict. -/
theorem round_residency (hsize : 2 ≤ cfg.historySize) (hfits : cfg.historySize < 2 ^ 32) {Log Init : Type}
    {pkg : Policy.PolicyPkg Log Init} {rows : UInt32 → Except PkgErr (List Log)} {lastID : UInt32} {fuel : Nat}
    (hload : Policy.restartPolicies pkg rows (cfg.historySize - 1) lastID fuel = some (.ok policies))
    (h : Lts.Reach (system dep cyc cfg) (Fed cyc policies) s) :
    (∀ m, s.storage.newest? = some m →
      (∀ e ∈ s.storage.passed, e ≤ m) ∧
      (∀ e, s.storage.resident e = true ↔
        e ∈ s.storage.passed ∧ e ≤ m ∧ m.toNat < e.toNat + cfg.historySize) ∧
      ∃ o, s.storage.oldestStoredEpoch = (o, true) ∧ s.storage.resident o = true ∧
        ∀ e, s.storage.resident e = true → o ≤ e) ∧
    ∀ p s', Fed cyc policies s (.storeNewRound p) → step dep cyc cfg s (.storeNewRound p) = some s' →
      (s.storage.resident p.rewardEpochID = true → s' = s) ∧
      ∀ e i, cyc.get s.storage.cyclic e = some i →
        s'.storage.rounds[i]? = s.storage.rounds[i]? ∧
          (s'.storage.resident e = true → cyc.get s'.storage.cyclic e = some i) := by
  obtain ⟨hasc, -, hwindow⟩ := Policy.restartPolicies_ok hload
  have hb : Backfill cfg.historySize policies := by
    refine ⟨hasc, fun p hp q hq => ?_⟩
    have hle := UInt32.le_iff_toNat_le.mp (hwindow q hq).1
    have := (hwindow p hp).2
    omega
  have hok := residencyOK_of_reach hb (by omega) h
  refine ⟨fun m hm => ⟨fun e he => Storage.le_newest hok.ascending he hm, hok.resident_iff hm,
    hok.oldest (by omega) hfits hm⟩, fun p s' _ hs => ?_⟩
  simp only [step, Option.some.injEq] at hs
  subst hs
  obtain ⟨hrepeat, hkept⟩ :
      (s.storage.resident p.rewardEpochID = true → s.storage.storeNewRound cfg p = s.storage) ∧ _ :=
    storeNewRound_keeps s.storage p
  refine ⟨fun hres => by rw [hrepeat hres], fun e i hget => ⟨?_, hkept e i hget⟩⟩
  cases hres : s.storage.resident p.rewardEpochID with
  | true => rw [hrepeat hres]
  | false =>
    have hi : i < s.storage.rounds.length := by
      have := (List.getElem?_eq_some_iff.mp ((hok.get e i).mp hget).1).1
      rwa [Storage.passed, List.length_map] at this
    rw [Storage.storeNewRound_new hres]
    exact List.getElem?_append_left hi

end Runs

/-- Every policy is that of two voters. -/
def plainPolicies : Policy.PolicyPkg UInt32 UInt32 := ⟨.ok, fun id => .ok (twoVoters id)⟩

/-- The indexer has the policies of these epochs. -/
def indexed (epochs : List UInt32) (id : UInt32) : Except PkgErr (List UInt32) := .ok (if id ∈ epochs then [id] else [])

/-- The storage after these policies. -/
def afterPolicies (cfg : Config) (policies : List SigningPolicy) : State .slots :=
  { start .slots cfg with storage := policies.foldl (Storage.storeNewRound cfg) (.new .slots cfg) }

theorem reach_afterPolicies {cfg : Config} {policies ps : List SigningPolicy} {p : SigningPolicy}
    (h : Lts.Reach (system plainDeps .slots cfg) (Fed .slots policies) (afterPolicies cfg ps))
    (hp : (afterPolicies cfg ps).storage.resident p.rewardEpochID = true ∨
      (afterPolicies cfg ps).storage.Next policies p) :
    Lts.Reach (system plainDeps .slots cfg) (Fed .slots policies) (afterPolicies cfg (ps ++ [p])) := by
  have hfed : Fed .slots policies (afterPolicies cfg ps) (.storeNewRound p) := hp
  refine h.step hfed ?_
  simp only [system, step, afterPolicies, List.foldl_append, List.foldl_cons, List.foldl_nil]

/-- A buffer of three, a backfill of epochs 5 and 7, then epoch 8, and 7 again:
5 has left the buffer. -/
theorem round_residency_gap :
    ∃ s, Policy.restartPolicies plainPolicies (indexed [5, 7]) (plainConfig.historySize - 1) 7 4 =
        some (.ok [twoVoters 5, twoVoters 7]) ∧
      Lts.Reach (system plainDeps .slots plainConfig) (Fed .slots [twoVoters 5, twoVoters 7]) s ∧
      s.storage.passed = [5, 7, 8] ∧ s.storage.resident 5 = false ∧
      ∃ o, s.storage.oldestStoredEpoch = (o, true) ∧ o ≤ 7 := by
  have hload : Policy.restartPolicies plainPolicies (indexed [5, 7]) (plainConfig.historySize - 1) 7 4 =
      some (.ok [twoVoters 5, twoVoters 7]) := rfl
  have hreach : Lts.Reach (system plainDeps .slots plainConfig) (Fed .slots [twoVoters 5, twoVoters 7])
      (afterPolicies plainConfig [twoVoters 5, twoVoters 7, twoVoters 8, twoVoters 7]) := by
    have h₀ : Lts.Reach (system plainDeps .slots plainConfig) (Fed .slots [twoVoters 5, twoVoters 7])
      (afterPolicies plainConfig []) := .init rfl
    have h₁ := reach_afterPolicies (p := twoVoters 5) h₀ (.inr (.inl rfl))
    have h₂ := reach_afterPolicies (p := twoVoters 7) h₁ (.inr (.inl rfl))
    have h₃ := reach_afterPolicies (p := twoVoters 8) h₂ (.inr (.inr ⟨by decide, 7, by decide +kernel, by decide⟩))
    exact reach_afterPolicies (p := twoVoters 7) h₃ (.inl (by decide +kernel))
  have hpassed : (afterPolicies plainConfig [twoVoters 5, twoVoters 7, twoVoters 8, twoVoters 7]).storage.passed =
      [5, 7, 8] := by decide +kernel
  have hsize : 2 ≤ plainConfig.historySize := by decide
  obtain ⟨-, hiff, o, ho, -, hleast⟩ :=
    (round_residency hsize (by decide) hload hreach).1 8 (by rw [Storage.newest?, hpassed]; rfl)
  rw [hpassed] at hiff
  refine ⟨_, hload, hreach, hpassed, ?_, o, ho, hleast 7 ((hiff 7).mpr (by decide))⟩
  rw [Bool.eq_false_iff, Ne, hiff]
  decide

/-- A buffer of `2^32`: the scan has no iterations, and reports that nothing
is stored while epoch 7 is resident. -/
theorem oldestStoredEpoch_misses :
    ∃ s, Policy.restartPolicies plainPolicies (indexed [7]) (2 ^ 32 - 1) 7 9 = some (.ok [twoVoters 7]) ∧
      Lts.Reach (system plainDeps .slots { plainConfig with historySize := 2 ^ 32 }) (Fed .slots [twoVoters 7]) s ∧
      s.storage.newest? = some 7 ∧ s.storage.resident 7 = true ∧ s.storage.oldestStoredEpoch = (0, false) := by
  have hload : Policy.restartPolicies plainPolicies (indexed [7]) (2 ^ 32 - 1) 7 9 = some (.ok [twoVoters 7]) := rfl
  have hreach : Lts.Reach (system plainDeps .slots { plainConfig with historySize := 2 ^ 32 })
      (Fed .slots [twoVoters 7])
      (afterPolicies { plainConfig with historySize := 2 ^ 32 } ([] ++ [twoVoters 7])) :=
    reach_afterPolicies (.init rfl) (.inr (.inl rfl))
  exact ⟨_, hload, hreach, by decide +kernel, by decide +kernel, by decide +kernel⟩

end TeeProxy.Voting
