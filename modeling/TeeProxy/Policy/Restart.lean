/-
Starting the policy service (`Initialize` and `Run` of
`internal/service/policy/policy.go`, `InitializePolicyAction` of
`pkg/policy/policy.go`).

A restart loads the policies of a window of epochs that ends with the node's
last one, and `Run` sends them on a channel nobody reads yet.
`restart_exact_iff` says when a restart loads its window and nothing else. It
does unless the node's last epoch is the largest uint32: there the loop of
`Initialize` goes past the window, to epoch zero and on.
-/
import TeeProxy.Lib.GoPanic
import TeeProxy.Policy.Initialize

namespace TeeProxy.Policy

open GoPanic (Fault)

/-! ## Initialize -/

/-- The errors of `InitializePolicyAction`. -/
inductive InitializeErr
  | fetchingLogs (e : PkgErr)
  | noSigningPolicyLogs
  | parsing (e : PkgErr)
  | creating (e : PkgErr)
  | preparingMessage (epoch : UInt32) (e : PkgErr)
  | preparingAction (e : PkgErr)
  deriving DecidableEq, Repr

/-- The errors of `Initialize`. -/
inductive StartErr
  | restart (e : InitErr)
  | creatingAction (e : InitializeErr)
  | enqueue (e : PkgErr)
  deriving DecidableEq, Repr

/-- What `Initialize` reads of the node's information. -/
structure InitialInfo where
  initialSigningPolicyHash : Hash
  lastSigningPolicyID : UInt32

/-- The fields of `Service` that `Initialize` and `Run` use. -/
structure Service where
  activePolicy : Option SigningPolicy
  restartPolicies : Option (List SigningPolicy)

/-- What a fresh start depends on: the logs of the latest policies, newest
first, the message for a policy, the random ID and the JSON form of the
instruction, and the queue. -/
structure FreshStart (Log : Type) where
  latestLogs : Except PkgErr (List Log)
  message : SigningPolicy → Except PkgErr Bytes
  id : Except PkgErr Hash
  marshal : Bytes → Except PkgErr Bytes
  enqueue : Action → Except PkgErr Unit

section Initialize

variable {Log Init : Type} (pkg : PolicyPkg Log Init) (rows : UInt32 → Except PkgErr (List Log))

/-- The action of a fresh start, its policy, and how many epochs back that is. -/
def initializePolicyAction (fresh : FreshStart Log) : Except InitializeErr (Action × SigningPolicy × Nat) := do
  let logs ← fresh.latestLogs.mapError .fetchingLogs
  match logs.getLast? with
  | none => .error .noSigningPolicyLogs
  | some log =>
    let event ← (pkg.parseSigningPolicyInitializedEvent log).mapError .parsing
    let p ← (pkg.newSigningPolicy event).mapError .creating
    let msg ← (fresh.message p).mapError (.preparingMessage p.rewardEpochID)
    let action ← (Queue.directInstructionToAction fresh.id (fresh.marshal msg)).mapError .preparingAction
    return (action, p, logs.length - 1)

/-- `Initialize`: the service after it and what it returns. Taking the last of
no policies panics. -/
def initializeService (s : Service) (fresh : FreshStart Log) (offset : Nat) (info : InitialInfo) (fuel : Nat) :
    Option (Service × Except (Fault StartErr) Unit) :=
  if info.initialSigningPolicyHash ≠ 0 then
    match restartPolicies pkg rows offset info.lastSigningPolicyID fuel with
    | none => none
    | some (.error e) => some (s, .error (.err (.restart e)))
    | some (.ok policies) => match policies.getLast? with
      | none => some (s, .error .panicked)
      | some lastPolicy => some (⟨some lastPolicy, some policies⟩, .ok ())
  else match initializePolicyAction pkg fresh with
    | .error e => some (s, .error (.err (.creatingAction e)))
    | .ok (action, p, _) =>
      some ({ s with activePolicy := some p }, GoPanic.returns ((fresh.enqueue action).mapError .enqueue))

end Initialize

/-! ## Run -/

/-- A buffered channel before anything is received from it. -/
structure Chan (α : Type) where
  capacity : Nat
  buffer : List α

/-- A send; on a full channel it blocks. -/
def Chan.send {α : Type} (c : Chan α) (a : α) : Option (Chan α) :=
  if c.buffer.length < c.capacity then some { c with buffer := c.buffer ++ [a] } else none

theorem Chan.sendAll {α : Type} : ∀ (as : List α) (c : Chan α), c.buffer.length + as.length ≤ c.capacity →
    as.foldlM Chan.send c = some { c with buffer := c.buffer ++ as }
  | [], c, _ => by simp
  | a :: as, c, h => by
    rw [List.length_cons] at h
    have hroom : c.buffer.length < c.capacity := by omega
    rw [List.foldlM_cons, Chan.send, if_pos hroom, Option.bind_eq_bind, Option.bind_some,
      sendAll as _ (by simp only [List.length_append, List.length_singleton]; omega)]
    simp

inductive RunErr
  | notInitialized
  deriving DecidableEq, Repr

/-- `Run` up to the start of the update loop: the service and the channel the
loop starts with, or nothing where a send blocks. -/
def Service.run (s : Service) : Option (Except RunErr (Service × Chan SigningPolicy)) :=
  match s.activePolicy with
  | none => some (.error .notInitialized)
  | some activePolicy =>
    let pChan : Chan SigningPolicy := ⟨max 3 (s.restartPolicies.getD []).length, []⟩
    match s.restartPolicies with
    | some policies => do
      let pChan ← policies.foldlM Chan.send pChan
      return .ok ({ s with restartPolicies := none }, pChan)
    | none => do
      let pChan ← pChan.send activePolicy
      return .ok (s, pChan)

/-- **The channel has room.** `Run` sends what was loaded and does not block. -/
theorem Service.run_loaded (p : SigningPolicy) (policies : List SigningPolicy) :
    Service.run ⟨some p, some policies⟩ = some (.ok (⟨some p, none⟩, ⟨max 3 policies.length, policies⟩)) := by
  have hsend := Chan.sendAll policies ⟨max 3 policies.length, []⟩ (by simp)
  simp only [Service.run, Option.getD_some, hsend]
  rfl

/-! ## The loop over the window -/

/-- The epochs a restart is to load. -/
def InWindow (offset : Nat) (lastID id : UInt32) : Prop :=
  lastID.toNat - min offset lastID.toNat ≤ id.toNat ∧ id ≤ lastID

/-- `n` epochs from `id` on. -/
def epochs : UInt32 → Nat → List UInt32
  | _, 0 => []
  | id, n + 1 => id :: epochs (id + 1) n

theorem mem_epochs {e : UInt32} : ∀ {n : Nat} {id : UInt32}, id.toNat + n ≤ 2 ^ 32 →
    (e ∈ epochs id n ↔ id.toNat ≤ e.toNat ∧ e.toNat < id.toNat + n)
  | 0, id, _ => by
    simp only [epochs, List.not_mem_nil, false_iff]
    omega
  | n + 1, id, h => by
    rw [epochs, List.mem_cons, ← UInt32.toNat_inj]
    by_cases hn : n = 0
    · subst hn
      simp only [epochs, List.not_mem_nil, or_false]
      omega
    · have hadd : (id + 1).toNat = id.toNat + 1 := toNat_add_one (by omega)
      rw [mem_epochs (by omega), hadd]
      omega

section Loop

variable {Log Init : Type} (pkg : PolicyPkg Log Init) (rows : UInt32 → Except PkgErr (List Log))

/-- The policy found for an epoch. -/
def found (id : UInt32) : Option SigningPolicy :=
  match fetchSigningPolicy pkg (rows id) id with
  | .ok p => p
  | .error _ => none

/-- The loop returns an error at an epoch: the fetch fails, or the last policy
is missing. -/
def Fails (lastID id : UInt32) : Prop :=
  (∃ e, fetchSigningPolicy pkg (rows id) id = .error e) ∨ (id = lastID ∧ fetchSigningPolicy pkg (rows id) id = .ok none)

variable {pkg rows} {lastID id : UInt32} {policies : List SigningPolicy}

theorem found_eq_some {p : SigningPolicy} : found pkg rows id = some p ↔
    fetchSigningPolicy pkg (rows id) id = .ok (some p) := by
  unfold found
  split
  next h => simp [h]
  next h => simp [h]

theorem filterMap_epochs (id : UInt32) (n : Nat) : (epochs id (n + 1)).filterMap (found pkg rows) =
    (found pkg rows id).toList ++ (epochs (id + 1) n).filterMap (found pkg rows) := by
  rw [epochs, List.filterMap_cons]
  cases found pkg rows id <;> rfl

theorem backfill_fails (hid : id ≤ lastID) (hf : Fails pkg rows lastID id) (fuel : Nat) :
    ∃ e, backfill pkg rows lastID (fuel + 1) id policies = some (.error e) := by
  rw [backfill, if_pos hid]
  rcases hf with ⟨e, he⟩ | ⟨rfl, hnone⟩
  · exact ⟨_, by rw [he]⟩
  · exact ⟨_, by rw [hnone]; exact if_pos rfl⟩

theorem backfill_loads (hid : id ≤ lastID) (hf : ¬ Fails pkg rows lastID id) (fuel : Nat) :
    backfill pkg rows lastID (fuel + 1) id policies =
      backfill pkg rows lastID fuel (id + 1) (policies ++ (found pkg rows id).toList) := by
  rw [backfill, if_pos hid, found]
  cases hfetch : fetchSigningPolicy pkg (rows id) id with
  | error e => exact absurd (.inl ⟨e, hfetch⟩) hf
  | ok p => cases p with
    | none =>
      have hne : id ≠ lastID := fun h => hf (.inr ⟨h, hfetch⟩)
      simp only [if_neg hne, Option.toList_none, List.append_nil]
    | some p => rfl

theorem backfill_error (fuel : Nat) : ∀ {n : Nat} {id : UInt32} {policies : List SigningPolicy},
    id.toNat + n = lastID.toNat → (∃ e ∈ epochs id (n + 1), Fails pkg rows lastID e) →
    ∃ e, backfill pkg rows lastID (fuel + (n + 1)) id policies = some (.error e)
  | 0, id, policies, hn, ⟨e, he, hf⟩ => by
    cases List.mem_singleton.mp he
    exact backfill_fails (UInt32.le_iff_toNat_le.mpr (by omega)) hf fuel
  | n + 1, id, policies, hn, ⟨e, he, hf⟩ => by
    have hid : id ≤ lastID := UInt32.le_iff_toNat_le.mpr (by omega)
    have hadd : (id + 1).toNat = id.toNat + 1 := toNat_add_one (by have := lastID.toNat_lt; omega)
    by_cases hfid : Fails pkg rows lastID id
    · exact backfill_fails hid hfid _
    · rcases List.mem_cons.mp he with rfl | he
      · exact absurd hf hfid
      · obtain ⟨err, herr⟩ := backfill_error fuel (by omega) ⟨e, he, hf⟩
        exact ⟨err, (backfill_loads hid hfid _).trans herr⟩

/-- Otherwise it gets past the last epoch, with what was found. -/
theorem backfill_past (fuel : Nat) : ∀ {n : Nat} {id : UInt32} {policies : List SigningPolicy},
    id.toNat + n = lastID.toNat → (∀ e ∈ epochs id (n + 1), ¬ Fails pkg rows lastID e) →
    backfill pkg rows lastID (fuel + (n + 1)) id policies =
      backfill pkg rows lastID fuel (lastID + 1) (policies ++ (epochs id (n + 1)).filterMap (found pkg rows))
  | 0, id, policies, hn, hf => by
    obtain rfl : id = lastID := UInt32.toNat_inj.mp (by omega)
    have hloads := @backfill_loads _ _ pkg rows id id policies (UInt32.le_refl id) (hf id List.mem_cons_self) fuel
    rw [hloads, filterMap_epochs, epochs, List.filterMap_nil, List.append_nil]
  | n + 1, id, policies, hn, hf => by
    have hid : id ≤ lastID := UInt32.le_iff_toNat_le.mpr (by omega)
    have hadd : (id + 1).toNat = id.toNat + 1 := toNat_add_one (by have := lastID.toNat_lt; omega)
    have hrest : ∀ e ∈ epochs (id + 1) (n + 1), ¬ Fails pkg rows lastID e := fun e he =>
      hf e (List.mem_cons_of_mem _ he)
    have hloads := @backfill_loads _ _ pkg rows lastID id policies hid (hf id List.mem_cons_self) (fuel + (n + 1))
    rw [← Nat.add_assoc, hloads, backfill_past fuel (by omega) hrest, List.append_assoc,
      filterMap_epochs id]

end Loop

/-! ## What a restart loads -/

section Exact

variable {Log Init : Type} (pkg : PolicyPkg Log Init) (rows : UInt32 → Except PkgErr (List Log))

/-- A fetch of the window fails. -/
def FetchFails (offset : Nat) (lastID : UInt32) : Prop :=
  ∃ id, InWindow offset lastID id ∧ ∃ e, fetchSigningPolicy pkg (rows id) id = .error e

/-- The node's last policy is not found. -/
def LastMissing (lastID : UInt32) : Prop := fetchSigningPolicy pkg (rows lastID) lastID = .ok none

/-- The service after a restart: the policies found in the window, each once
and in ascending order, the last of them the node's and active; `Run` sends
all of them and does not block. -/
structure Restored (offset : Nat) (lastID : UInt32) (s : Service) (policies : List SigningPolicy)
    (lastPolicy : SigningPolicy) : Prop where
  service : s = ⟨some lastPolicy, some policies⟩
  ascending : (policies.map (·.rewardEpochID)).Pairwise (· < ·)
  found : ∀ p, p ∈ policies ↔ ∃ id, InWindow offset lastID id ∧ fetchSigningPolicy pkg (rows id) id = .ok (some p)
  last : policies.getLast? = some lastPolicy
  last_found : fetchSigningPolicy pkg (rows lastID) lastID = .ok (some lastPolicy)
  sends : s.run = some (.ok (⟨some lastPolicy, none⟩, ⟨max 3 policies.length, policies⟩))

/-- A restart ends. It returns an error exactly if a fetch of the window
fails or the node's last policy is missing; otherwise it restores. -/
def RestartExact (s : Service) (fresh : FreshStart Log) (offset : Nat) (info : InitialInfo) : Prop :=
  ∃ fuel s' r, initializeService pkg rows s fresh offset info fuel = some (s', r) ∧
    ((∃ e, r = .error (.err e)) ↔
      FetchFails pkg rows offset info.lastSigningPolicyID ∨ LastMissing pkg rows info.lastSigningPolicyID) ∧
    (¬ (FetchFails pkg rows offset info.lastSigningPolicyID ∨ LastMissing pkg rows info.lastSigningPolicyID) →
      r = .ok () ∧ ∃ policies lastPolicy, Restored pkg rows offset info.lastSigningPolicyID s' policies lastPolicy)

variable {pkg rows} {offset fuel : Nat} {lastID : UInt32} {policies : List SigningPolicy} {s s' : Service}
  {fresh : FreshStart Log} {info : InitialInfo}

theorem back_toNat (hoffset : offset < 2 ^ 31) :
    (min (UInt32.ofNat offset) lastID).toNat = min offset lastID.toNat := by
  have hof : (UInt32.ofNat offset).toNat = offset := by
    rw [UInt32.toNat_ofNat']
    exact Nat.mod_eq_of_lt (by omega)
  have hmin : min (UInt32.ofNat offset) lastID = if UInt32.ofNat offset ≤ lastID then UInt32.ofNat offset else lastID :=
    rfl
  rw [hmin]
  split
  next hle =>
    have := UInt32.le_iff_toNat_le.mp hle
    omega
  next hle =>
    have : ¬ (UInt32.ofNat offset).toNat ≤ lastID.toNat := fun h => hle (UInt32.le_iff_toNat_le.mpr h)
    omega

/-- The epochs the loop goes through up to the last. -/
def recentEpochs (offset : Nat) (lastID : UInt32) : List UInt32 :=
  epochs (lastID - min (UInt32.ofNat offset) lastID) (min offset lastID.toNat + 1)

theorem startID_add (hoffset : offset < 2 ^ 31) :
    (lastID - min (UInt32.ofNat offset) lastID).toNat + min offset lastID.toNat = lastID.toNat := by
  rw [startID_toNat, back_toNat hoffset]
  omega

theorem mem_recentEpochs (hoffset : offset < 2 ^ 31) {id : UInt32} :
    id ∈ recentEpochs offset lastID ↔ InWindow offset lastID id := by
  have hstart := @startID_add offset lastID hoffset
  have hlast := lastID.toNat_lt
  rw [recentEpochs, mem_epochs (by omega), InWindow, UInt32.le_iff_toNat_le]
  omega

theorem recentEpochs_fail_iff (hoffset : offset < 2 ^ 31) :
    (∃ id ∈ recentEpochs offset lastID, Fails pkg rows lastID id) ↔
      FetchFails pkg rows offset lastID ∨ LastMissing pkg rows lastID := by
  have hlast : InWindow offset lastID lastID := ⟨Nat.sub_le _ _, UInt32.le_refl _⟩
  constructor
  · rintro ⟨id, hid, he | ⟨rfl, hnone⟩⟩
    · exact .inl ⟨id, (mem_recentEpochs hoffset).mp hid, he⟩
    · exact .inr hnone
  · rintro (⟨id, hid, he⟩ | hnone)
    · exact ⟨id, (mem_recentEpochs hoffset).mpr hid, .inl he⟩
    · exact ⟨lastID, (mem_recentEpochs hoffset).mpr hlast, .inr ⟨rfl, hnone⟩⟩

theorem restart_fails (hoffset : offset < 2 ^ 31)
    (hfails : FetchFails pkg rows offset lastID ∨ LastMissing pkg rows lastID) :
    ∃ fuel e, restartPolicies pkg rows offset lastID fuel = some (.error e) := by
  unfold restartPolicies
  exact ⟨_, backfill_error 0 (startID_add hoffset) ((recentEpochs_fail_iff hoffset).mpr hfails)⟩

/-- Where nothing fails, the loop leaves the window with what it found there. -/
theorem restart_past (hoffset : offset < 2 ^ 31)
    (hok : ¬ (FetchFails pkg rows offset lastID ∨ LastMissing pkg rows lastID)) (fuel : Nat) :
    restartPolicies pkg rows offset lastID (fuel + (min offset lastID.toNat + 1)) =
      backfill pkg rows lastID fuel (lastID + 1) ((recentEpochs offset lastID).filterMap (found pkg rows)) :=
  backfill_past fuel (startID_add hoffset) fun id hid hf => hok ((recentEpochs_fail_iff hoffset).mp ⟨id, hid, hf⟩)

theorem restart_loads (hoffset : offset < 2 ^ 31) (hmax : lastID ≠ 4294967295)
    (hok : ¬ (FetchFails pkg rows offset lastID ∨ LastMissing pkg rows lastID)) :
    ∃ fuel, restartPolicies pkg rows offset lastID fuel =
      some (.ok ((recentEpochs offset lastID).filterMap (found pkg rows))) := by
  have hlast : lastID.toNat ≠ 4294967295 := fun h => hmax (UInt32.toNat_inj.mp h)
  have hadd : (lastID + 1).toNat = lastID.toNat + 1 := toNat_add_one (by have := lastID.toNat_lt; omega)
  have hpast : ¬ lastID + 1 ≤ lastID := by
    rw [UInt32.le_iff_toNat_le]
    omega
  exact ⟨_, (restart_past hoffset hok 1).trans (by rw [backfill, if_neg hpast])⟩

theorem restored_of_loads (hoffset : offset < 2 ^ 31)
    (h : restartPolicies pkg rows offset lastID fuel =
      some (.ok ((recentEpochs offset lastID).filterMap (found pkg rows)))) :
    ∃ lastPolicy, Restored pkg rows offset lastID
      ⟨some lastPolicy, some ((recentEpochs offset lastID).filterMap (found pkg rows))⟩
      ((recentEpochs offset lastID).filterMap (found pkg rows)) lastPolicy := by
  obtain ⟨hasc, hlast, -⟩ := restartPolicies_ok h
  rw [List.getLast?_map, Option.map_eq_some_iff] at hlast
  obtain ⟨lastPolicy, hget, hepoch⟩ := hlast
  have hfound : ∀ p, p ∈ (recentEpochs offset lastID).filterMap (found pkg rows) ↔
      ∃ id, InWindow offset lastID id ∧ fetchSigningPolicy pkg (rows id) id = .ok (some p) := fun p => by
    simp only [List.mem_filterMap, mem_recentEpochs hoffset, found_eq_some]
  obtain ⟨id, -, hfetch⟩ := (hfound lastPolicy).mp (List.mem_of_getLast? hget)
  obtain rfl : id = lastID := (fetchSigningPolicy_some hfetch).symm.trans hepoch
  exact ⟨lastPolicy, rfl, hasc, hfound, hget, hfetch, Service.run_loaded _ _⟩

/-- A restart that returns without an error has loaded policies. -/
theorem initializeService_ok (hinfo : info.initialSigningPolicyHash ≠ 0)
    (h : initializeService pkg rows s fresh offset info fuel = some (s', .ok ())) :
    ∃ policies, restartPolicies pkg rows offset info.lastSigningPolicyID fuel = some (.ok policies) := by
  rw [initializeService, if_pos hinfo] at h
  split at h
  · cases h
  · cases h
  next policies hpolicies => exact ⟨policies, hpolicies⟩

end Exact

/-- **A restart loads its window.** A restart ends, returns an error exactly
if a fetch of the window fails or the node's last policy is missing, and
otherwise loads the policies of the window, for `Run` to send without
blocking, unless the node's last epoch is the largest uint32, all of the
window can be fetched and the last policy is there. -/
theorem restart_exact_iff {Log Init : Type} (pkg : PolicyPkg Log Init) (rows : UInt32 → Except PkgErr (List Log))
    (s : Service) (fresh : FreshStart Log) (offset : Nat) (info : InitialInfo) (hoffset : offset < 2 ^ 31)
    (hinfo : info.initialSigningPolicyHash ≠ 0) :
    RestartExact pkg rows s fresh offset info ↔
      info.lastSigningPolicyID ≠ 4294967295 ∨ FetchFails pkg rows offset info.lastSigningPolicyID ∨
        LastMissing pkg rows info.lastSigningPolicyID := by
  constructor
  · rintro ⟨fuel, s', r, hinit, -, hrestores⟩
    by_contra hnot
    obtain ⟨hmax, hok⟩ := not_or.mp hnot
    obtain ⟨rfl, -⟩ := hrestores hok
    obtain ⟨policies, hpolicies⟩ := initializeService_ok hinfo hinit
    have hlast : info.lastSigningPolicyID.toNat = 4294967295 := congrArg UInt32.toNat (not_not.mp hmax)
    exact backfill_max (by omega) hpolicies
  · intro hcond
    by_cases hfails : FetchFails pkg rows offset info.lastSigningPolicyID ∨
        LastMissing pkg rows info.lastSigningPolicyID
    · obtain ⟨fuel, e, he⟩ := restart_fails hoffset hfails
      refine ⟨fuel, s, _, by rw [initializeService, if_pos hinfo, he], ?_, fun hok => absurd hfails hok⟩
      exact ⟨fun _ => hfails, fun _ => ⟨_, rfl⟩⟩
    · obtain ⟨fuel, hloads⟩ := restart_loads hoffset (hcond.resolve_right hfails) hfails
      obtain ⟨lastPolicy, hrestored⟩ := restored_of_loads hoffset hloads
      have hlast := hrestored.last
      refine ⟨fuel, _, .ok (), by rw [initializeService, if_pos hinfo, hloads]; simp only [hlast], ?_, fun _ =>
        ⟨rfl, _, _, hrestored⟩⟩
      refine ⟨?_, fun h => absurd h hfails⟩
      rintro ⟨e, he⟩
      cases he

/-- Logs are epochs, and each epoch has a policy without voters. -/
def epochPkg : PolicyPkg UInt32 UInt32 := ⟨.ok, fun epoch => .ok ⟨epoch, 0, .ofMap ∅⟩⟩

/-- The indexer has the log of every epoch. -/
def everyEpoch (id : UInt32) : Except PkgErr (List UInt32) := .ok [id]

/-- Nothing to start afresh with. -/
def noFreshStart : FreshStart UInt32 := ⟨.ok [], fun _ => .ok [], .ok 1, .ok, fun _ => .ok ()⟩

theorem restart_at_seven : RestartExact epochPkg everyEpoch ⟨none, none⟩ noFreshStart 2 ⟨1, 7⟩ :=
  (restart_exact_iff epochPkg everyEpoch ⟨none, none⟩ noFreshStart 2 ⟨1, 7⟩ (by decide) (by decide)).mpr
    (.inl (by decide))

theorem backfill_everyEpoch : ∀ (fuel : Nat) (id : UInt32) (policies : List SigningPolicy),
    backfill epochPkg everyEpoch 4294967295 fuel id policies = none
  | 0, _, _ => rfl
  | fuel + 1, id, policies => by
    have hid : id ≤ 4294967295 := UInt32.le_iff_toNat_le.mpr (Nat.le_of_lt_succ id.toNat_lt)
    have hfetch : fetchSigningPolicy epochPkg (everyEpoch id) id = .ok (some ⟨id, 0, .ofMap ∅⟩) :=
      if_neg (not_not.mpr rfl)
    rw [backfill, if_pos hid, hfetch]
    exact backfill_everyEpoch fuel (id + 1) _

/-- At the largest uint32, with every policy indexed, the loop never ends. -/
theorem restart_at_max_never_ends :
    (∀ fuel, initializeService epochPkg everyEpoch ⟨none, none⟩ noFreshStart 2 ⟨1, 4294967295⟩ fuel = none) ∧
      ¬ RestartExact epochPkg everyEpoch ⟨none, none⟩ noFreshStart 2 ⟨1, 4294967295⟩ := by
  have hnone : ∀ fuel,
      initializeService epochPkg everyEpoch ⟨none, none⟩ noFreshStart 2 ⟨1, 4294967295⟩ fuel = none := fun fuel => by
    rw [initializeService, if_pos (by decide), restartPolicies, backfill_everyEpoch]
  refine ⟨hnone, ?_⟩
  rintro ⟨fuel, s', r, hinit, -⟩
  rw [hnone] at hinit
  cases hinit

end TeeProxy.Policy
