/-
A policy on its way from the indexer to the votes: the update loop of the
policy service with the node and the network, the channel `Run` makes, the
loop `ListenToPolicies` at its other end, and the voting storage, which opens a
round for each policy that arrives.

The update loop sends a policy once the node has applied it. So there is never
a round of an epoch the node has not reached, and no vote is counted under such
a policy, however far the loops are behind each other (`rollover_safe`). The
one exception is a fresh start: `Initialize` only enqueues INITIALIZE_POLICY,
and `Run` sends its policy at once, so that its round can be there before the
node has it. The rounds are those of the policies sent, in their order, and the
side condition under which the buffer holds the last epochs (`Voting.Fed`) is
met.
-/
import TeeProxy.Policy.Lockstep
import TeeProxy.Policy.Restart
import TeeProxy.Voting.Authorised
import TeeProxy.Voting.Residency

namespace TeeProxy.Rollover

open Policy (PolicyPkg Steady Next)
open Voting (CyclicPkg Deps Config)

/-! ## The system -/

/-- The policy service, how many policies have been received from the channel,
the voting storage, and whether the node has a policy. Until it has,
`policy.node` is the epoch INITIALIZE_POLICY will bring it to. -/
structure State (Log : Type) (cyc : CyclicPkg) where
  policy : Policy.State Log
  received : Nat
  voting : Voting.State cyc
  initialized : Bool

/-- `initializePolicy` is the node's applying of INITIALIZE_POLICY. -/
inductive Event (Log : Type)
  | policy (e : Policy.Event Log)
  | initializePolicy
  | listen
  | voting (e : Voting.Event)

section System

variable {Log Init : Type} {cyc : CyclicPkg}

/-- What has been sent on the channel. -/
def State.sent (s : State Log cyc) : List SigningPolicy := s.policy.backlog ++ s.policy.out

/-- The size of the channel: three, or the number of policies loaded on a
restart if that is larger. -/
def State.capacity (s : State Log cyc) : Nat := max 3 s.policy.backlog.length

/-- A send on a full channel waits; rounds are opened by the listener only. -/
def State.ready (s : State Log cyc) : Event Log → Bool
  | .policy .emit => s.sent.length < s.received + s.capacity
  | .voting (.storeNewRound _) => false
  | _ => true

variable (pkg : PolicyPkg Log Init) (dep : Deps) (cyc : CyclicPkg) (cfg : Config)

/-- A node without a policy refuses every update, and shows epoch 0. -/
def withoutPolicy (s : Policy.State Log) : Policy.Event Log → Option (Policy.State Log)
  | .deliver n refusal stored => match s.network[n]? with
    | none => none
    | some m =>
      if refusal = 1 then none
      else some { s with
        responses := if stored then s.responses ++ [⟨m.action.data.id, m.action.data.submissionTag, refusal⟩]
          else s.responses }
  | .refresh id => if id = 0 then some { s with lastAppliedPolicyID := id } else none
  | e => Policy.step pkg s e

/-- The steps, whether the channel is ready for them or not. -/
def act (s : State Log cyc) : Event Log → Option (State Log cyc)
  | .policy e =>
    (if s.initialized then Policy.step pkg s.policy e else withoutPolicy pkg s.policy e).map fun policy =>
      { s with policy }
  | .initializePolicy => if s.initialized then none else some { s with initialized := true }
  | .listen => match s.sent[s.received]? with
    | none => none
    | some p => (Voting.step dep cyc cfg s.voting (.storeNewRound p)).map fun voting =>
      { s with voting, received := s.received + 1 }
  | .voting e => (Voting.step dep cyc cfg s.voting e).map fun voting => { s with voting }

/-- A step that has to wait for its channel is not taken. -/
def step (s : State Log cyc) (e : Event Log) : Option (State Log cyc) :=
  if s.ready e then act pkg dep cyc cfg s e else none

/-- What `Initialize` leaves: on a fresh start one policy, which the node has
not got yet, and on a restart those loaded for the buffer's size, the last of
which is the node's. -/
def Initialized (initialized : Bool) (s : Policy.State Log) : Prop :=
  Policy.Started s ∧ (initialized = false ∧ s.backlog = [s.activePolicy] ∨
    initialized = true ∧ ∃ rows lastID fuel,
      Policy.restartPolicies pkg rows (cfg.historySize - 1) lastID fuel = some (.ok s.backlog))

/-- The update loop, the node, the channel and the voting. -/
def system : Lts.System (State Log cyc) (Event Log) where
  init s := Initialized pkg cfg s.initialized s.policy ∧ s.received = 0 ∧ s.voting = Voting.start cyc cfg
  step := step pkg dep cyc cfg

/-- The update loop is steady. -/
def Runs (s : State Log cyc) : Event Log → Prop
  | .policy e => Steady s.policy e
  | _ => True

instance (s : State Log cyc) (e : Event Log) : Decidable (Runs cyc s e) := by
  cases e <;> unfold Runs <;> infer_instance

end System

/-! ## What a step can do -/

section Inversion

variable {Log Init : Type} {pkg : PolicyPkg Log Init} {dep : Deps} {cyc : CyclicPkg} {cfg : Config}
  {s s' : State Log cyc} {e : Event Log}

/-- **Everything a step can do.** -/
inductive Step (pkg : PolicyPkg Log Init) (dep : Deps) (cfg : Config) (s : State Log cyc) :
    Event Log → State Log cyc → Prop
  | updated {e t} : Policy.Step s.policy e t → (e = .emit → s.sent.length < s.received + s.capacity) →
      (s.initialized = false → withoutPolicy pkg s.policy e = some t) →
      Step pkg dep cfg s (.policy e) { s with policy := t }
  | initialized : Step pkg dep cfg s .initializePolicy { s with initialized := true }
  | listened {p} : s.sent[s.received]? = some p →
      Step pkg dep cfg s .listen { s with
        voting := { s.voting with storage := s.voting.storage.storeNewRound cfg p }
        received := s.received + 1 }
  | voted {e t} : (∀ p, e ≠ .storeNewRound p) → Voting.step dep cyc cfg s.voting e = some t →
      Step pkg dep cfg s (.voting e) { s with voting := t }

/-- A node without a policy does what one with a policy might do: it refuses. -/
theorem step_of_withoutPolicy {s t : Policy.State Log} {e : Policy.Event Log} (h : withoutPolicy pkg s e = some t) :
    Policy.Step s e t ∧ t.node = s.node ∧ ∀ resp ∈ t.responses, resp.status = 1 → resp ∈ s.responses := by
  cases e with
  | deliver n refusal stored =>
    simp only [withoutPolicy] at h
    split at h
    · cases h
    split at h
    · cases h
    next m hm hrefusal =>
    cases h
    have hold : ∀ resp ∈ (if stored then s.responses ++ [⟨m.action.data.id, m.action.data.submissionTag, refusal⟩]
        else s.responses), resp.status = 1 → resp ∈ s.responses := by
      intro resp hresp hstatus
      split at hresp
      · rcases List.mem_append.mp hresp with hresp | hresp
        · exact hresp
        · rw [List.mem_singleton.mp hresp] at hstatus
          exact absurd hstatus hrefusal
      · exact hresp
    exact ⟨.refused hold, rfl, hold⟩
  | refresh id =>
    simp only [withoutPolicy] at h
    split at h
    next hid =>
      cases h
      refine ⟨.refreshed ?_, rfl, fun resp hresp _ => hresp⟩
      rw [hid]
      exact UInt32.zero_le
    next => cases h
  | cancel | readState | reconcile | fetch | build | enqueue | await | emit =>
    simp only [withoutPolicy] at h
    have hstep := Policy.step_inv h
    refine ⟨hstep, ?_⟩
    cases hstep <;> exact ⟨rfl, fun resp hresp _ => hresp⟩

theorem step_inv (h : step pkg dep cyc cfg s e = some s') : Step pkg dep cfg s e s' := by
  unfold step at h
  split at h
  next hready =>
    cases e with
    | policy e =>
      obtain ⟨t, ht, rfl⟩ := Option.map_eq_some_iff.mp h
      have hroom : e = .emit → s.sent.length < s.received + s.capacity := by
        rintro rfl
        exact of_decide_eq_true hready
      split at ht
      next hinit => exact .updated (Policy.step_inv ht) hroom fun hnot => by rw [hinit] at hnot; cases hnot
      next => exact .updated (step_of_withoutPolicy ht).1 hroom fun _ => ht
    | initializePolicy =>
      simp only [act] at h
      split at h
      · cases h
      · cases h; exact .initialized
    | listen =>
      simp only [act] at h
      split at h
      · cases h
      next hp =>
        simp only [Voting.step, Option.map_some] at h
        cases h
        exact .listened hp
    | voting e =>
      obtain ⟨t, ht, rfl⟩ := Option.map_eq_some_iff.mp h
      refine .voted ?_ ht
      rintro p rfl
      cases hready
  next => cases h

theorem policy_sent {s t : Policy.State Log} {e : Policy.Event Log} (h : Policy.Step s e t) :
    t.backlog = s.backlog ∧ (t.out = s.out ∨ e = .emit ∧ ∃ p, t.out = s.out ++ [p]) := by
  cases h with
  | emitted => exact ⟨rfl, .inr ⟨rfl, _, rfl⟩⟩
  | _ => exact ⟨rfl, .inl rfl⟩

/-- Votes, ends of boxes and sends leave the policies of the rounds. -/
theorem policies_voted {s t : Voting.State cyc} {e : Voting.Event} (he : ∀ p, e ≠ .storeNewRound p)
    (h : Voting.step dep cyc cfg s e = some t) :
    t.storage.rounds.map (·.policy) = s.storage.rounds.map (·.policy) := by
  obtain ⟨-, hpassed, -⟩ := Voting.step_residency h he
  have hlen : t.storage.rounds.length = s.storage.rounds.length := by
    simpa only [Voting.Storage.passed, List.length_map] using congrArg List.length hpassed
  refine List.ext_getElem? fun i => ?_
  rw [List.getElem?_map, List.getElem?_map]
  cases hr : s.storage.rounds[i]? with
  | none => rw [List.getElem?_eq_none (hlen.trans_le (List.getElem?_eq_none_iff.mp hr))]
  | some r =>
    obtain ⟨r', hr', hp⟩ := Voting.policy_step (Voting.step_inv h) hr
    rw [hr', Option.map_some, Option.map_some, hp]

end Inversion

/-! ## The order of the policies -/

section Order

variable {Log Init : Type} {pkg : PolicyPkg Log Init} {cyc : CyclicPkg} {cfg : Config} {s : State Log cyc}

theorem backfill_of_initialized {s : Policy.State Log} {initialized : Bool} (hsize : 0 < cfg.historySize)
    (h : Initialized pkg cfg initialized s) : Voting.Backfill cfg.historySize s.backlog := by
  rcases h.2 with ⟨-, hone⟩ | ⟨-, rows, lastID, fuel, hload⟩
  · rw [hone]
    refine ⟨List.pairwise_singleton _ _, fun p hp q hq => ?_⟩
    rw [List.mem_singleton.mp hp, List.mem_singleton.mp hq]
    omega
  · obtain ⟨hasc, -, hwindow⟩ := Policy.restartPolicies_ok hload
    refine ⟨hasc, fun p hp q hq => ?_⟩
    have hle := UInt32.le_iff_toNat_le.mp (hwindow q hq).1
    have hnear := (hwindow p hp).2
    omega

/-- The policies that were active: those sent, and one about to be. -/
def State.adopted (s : State Log cyc) : List SigningPolicy := s.sent ++ s.policy.pc.unsent.toList

theorem adopted_ascending (hb : Voting.Backfill cfg.historySize s.policy.backlog) (hc : Policy.Consecutive s.policy) :
    s.adopted.Pairwise fun p q => p.rewardEpochID.toNat < q.rewardEpochID.toNat := by
  obtain ⟨first, hfirst, hchain, -⟩ := hc
  rw [← List.singleton_append] at hchain
  obtain ⟨-, hrest, hjoin⟩ := List.isChain_append.mp hchain
  have hlt {p q : SigningPolicy} (hnext : Next p q) : p.rewardEpochID.toNat < q.rewardEpochID.toNat := by
    rw [Next] at hnext
    omega
  have hback : s.policy.backlog.IsChain fun p q => p.rewardEpochID.toNat < q.rewardEpochID.toNat :=
    (List.pairwise_map.mp hb.ascending).isChain.imp fun _ _ => UInt32.lt_iff_toNat_lt.mp
  have hall : s.adopted.IsChain fun p q => p.rewardEpochID.toNat < q.rewardEpochID.toNat := by
    rw [State.adopted, State.sent, List.append_assoc]
    refine hback.append (hrest.imp fun p q => hlt) fun p hp q hq => hlt (hjoin p ?_ q hq)
    rw [hfirst] at hp
    exact hp
  have hmap : (s.adopted.map fun p => p.rewardEpochID.toNat).IsChain (· < ·) := (List.isChain_map _).mpr hall
  exact List.pairwise_map.mp hmap.pairwise

theorem adopted_last (hc : Policy.Consecutive s.policy) : s.adopted.getLast? = some s.policy.activePolicy := by
  obtain ⟨first, hfirst, -, hlast⟩ := hc
  obtain ⟨l, hl⟩ := List.getLast?_eq_some_iff.mp hfirst
  rw [State.adopted, State.sent, hl, List.append_assoc, List.append_assoc, List.singleton_append, List.getLast?_append,
    hlast]
  rfl

theorem sent_le_active (hb : Voting.Backfill cfg.historySize s.policy.backlog) (hc : Policy.Consecutive s.policy)
    {p : SigningPolicy} (hp : p ∈ s.sent) : p.rewardEpochID ≤ s.policy.activePolicy.rewardEpochID := by
  have hadopted : p ∈ s.adopted := List.mem_append_left _ hp
  have hasc := adopted_ascending hb hc
  obtain ⟨l, hl⟩ := List.getLast?_eq_some_iff.mp (adopted_last hc)
  rw [hl] at hadopted hasc
  rcases List.mem_append.mp hadopted with hmem | hmem
  · have hlt := (List.pairwise_append.mp hasc).2.2 p hmem _ (List.mem_singleton_self _)
    exact UInt32.le_of_lt (UInt32.lt_iff_toNat_lt.mpr hlt)
  · rw [List.mem_singleton.mp hmem]
    exact UInt32.le_refl _

end Order

/-! ## Every run -/

section Runs

variable {Log Init : Type} {pkg : PolicyPkg Log Init} {dep : Deps} {cyc : CyclicPkg} {cfg : Config}
  {s s' : State Log cyc}

/-- Before the node has a policy nothing is confirmed and nothing adopted: the
policy of the fresh start is active, and the only one sent. -/
structure Fresh (s : Policy.State Log) : Prop where
  backlog : s.backlog = [s.activePolicy]
  out : s.out = []
  unsent : s.pc.unsent = none
  reconciling : ∀ nodeID, s.pc ≠ .reconciling nodeID
  view : s.lastAppliedPolicyID ≤ s.activePolicy.rewardEpochID
  responses : ∀ resp ∈ s.responses, resp.status ≠ 1

theorem Fresh.step {s t : Policy.State Log} {e : Policy.Event Log} (h : Fresh s)
    (hs : withoutPolicy pkg s e = some t) : Fresh t := by
  obtain ⟨hstep, hnode, hresp⟩ := step_of_withoutPolicy hs
  have hresponses : ∀ resp ∈ t.responses, resp.status ≠ 1 := fun resp hmem hst =>
    h.responses resp (hresp resp hmem hst) hst
  cases hstep with
  | returned | abreast | retried | found | built =>
    exact ⟨h.backlog, h.out, rfl, by simp, h.view, hresponses⟩
  | dropped hpc | emitted hpc =>
    have hunsent := h.unsent
    rw [hpc] at hunsent
    cases hunsent
  | behind _ hlt => exact absurd h.view (UInt32.not_le.mpr hlt)
  | reconciled hpc => exact absurd hpc (h.reconciling _)
  | @enqueued sent ok a p hpc =>
    refine ⟨h.backlog, h.out, ?_, fun nodeID => ?_, h.view, hresponses⟩
    · cases ok <;> rfl
    · cases ok <;> simp
  | confirmed _ hmem _ hst => exact absurd hst (h.responses _ hmem)
  | applied _ happ =>
    rw [← hnode] at happ
    exact absurd happ (Nat.succ_ne_self _)
  | refused => exact ⟨h.backlog, h.out, h.unsent, h.reconciling, h.view, hresponses⟩
  | @refreshed id _ =>
    simp only [withoutPolicy] at hs
    split at hs
    next hid =>
      refine ⟨h.backlog, h.out, h.unsent, h.reconciling, ?_, hresponses⟩
      dsimp only
      rw [hid]
      exact UInt32.zero_le
    next => cases hs

/-- The update loop is in step with the node it has or is to have. -/
structure Steered (s : State Log cyc) : Prop where
  lockstep : Policy.Lockstep s.policy
  consecutive : Policy.Consecutive s.policy
  fresh : s.initialized = false → Fresh s.policy

theorem steered (h : Lts.Reach (system pkg dep cyc cfg) (Runs cyc) s) : Steered s := by
  refine h.invariant Steered ?_ fun s e s' _ ih hok hs => ?_
  · rintro s ⟨hinit, -, -⟩
    have hreach : Lts.Reach (Policy.system pkg) Steady s.policy := .init hinit.1
    refine ⟨Policy.lockstep hreach, Policy.consecutive hreach, fun hnot => ?_⟩
    obtain ⟨restartPolicies, activePolicy, view, -, hview, heq⟩ := hinit.1
    rcases hinit.2 with ⟨-, hone⟩ | ⟨hyes, -⟩
    · rw [heq] at hone ⊢
      exact ⟨hone, rfl, rfl, by simp, hview, fun resp hresp => by cases hresp⟩
    · rw [hnot] at hyes
      cases hyes
  · cases step_inv hs with
    | updated ht _ hwithout =>
      exact ⟨ih.lockstep.step hok ht, ih.consecutive.move (ih.lockstep.move ht), fun hnot =>
        (ih.fresh hnot).step (hwithout hnot)⟩
    | initialized => exact ⟨ih.lockstep, ih.consecutive, fun hnot => by cases hnot⟩
    | listened | voted => exact ⟨ih.lockstep, ih.consecutive, ih.fresh⟩

/-- The listener is in step with the channel: the rounds are those of the
policies received, and the storage was fed as it should be. -/
structure Lined (dep : Deps) (cfg : Config) (s : State Log cyc) : Prop where
  backfill : Voting.Backfill cfg.historySize s.policy.backlog
  rounds : s.voting.storage.rounds.map (·.policy) = s.sent.take s.received
  received : s.received ≤ s.sent.length
  room : s.sent.length ≤ s.received + s.capacity
  fed : Lts.Reach (Voting.system dep cyc cfg) (Voting.Fed cyc s.policy.backlog) s.voting

theorem Lined.passed (h : Lined dep cfg s) :
    s.voting.storage.passed = (s.sent.take s.received).map (·.rewardEpochID) := by
  rw [← h.rounds, List.map_map]
  rfl

theorem Lined.length_rounds (h : Lined dep cfg s) : s.voting.storage.rounds.length = s.received := by
  have hlen := congrArg List.length h.rounds
  rwa [List.length_map, List.length_take, min_eq_left h.received] at hlen

theorem Lined.next (h : Lined dep cfg s) (hc : Policy.Consecutive s.policy) {p : SigningPolicy}
    (hp : s.sent[s.received]? = some p) : s.voting.storage.Next s.policy.backlog p := by
  rw [Voting.Storage.Next, h.length_rounds]
  by_cases hlt : s.received < s.policy.backlog.length
  · rw [State.sent, List.getElem?_append_left hlt] at hp
    exact .inl hp
  · -- The one before it in the channel is of the epoch before.
    obtain ⟨first, hfirst, hchain, -⟩ := hc
    obtain ⟨l, hl⟩ := List.getLast?_eq_some_iff.mp hfirst
    have hsent : s.sent = l ++ first :: s.policy.out := by rw [State.sent, hl, List.append_assoc]; rfl
    rw [hl, List.length_append, List.length_singleton] at hlt
    obtain ⟨j, hj⟩ : ∃ j, s.received = l.length + (j + 1) := ⟨s.received - l.length - 1, by omega⟩
    rw [hsent, hj, List.getElem?_append_right (Nat.le_add_right _ _), Nat.add_sub_cancel_left] at hp
    obtain ⟨hlen, hget⟩ := List.getElem?_eq_some_iff.mp hp
    rw [← List.cons_append] at hchain
    have hnext := List.isChain_iff_getElem.mp hchain.left_of_append j hlen
    rw [hget] at hnext
    refine .inr ⟨by rw [hl, List.length_append, List.length_singleton]; omega, _, ?_, hnext⟩
    rw [Voting.Storage.newest?, h.passed, List.getLast?_map, List.getLast?_take, if_neg (by omega), hsent, hj,
      ← Nat.add_assoc, Nat.add_sub_cancel, List.getElem?_append_right (Nat.le_add_right _ _), Nat.add_sub_cancel_left,
      List.getElem?_eq_getElem (by omega)]
    rfl

theorem Lined.not_resident (h : Lined dep cfg s) (hsize : 0 < cfg.historySize) (hc : Policy.Consecutive s.policy)
    {p : SigningPolicy} (hp : s.sent[s.received]? = some p) : s.voting.storage.resident p.rewardEpochID = false := by
  rw [Bool.eq_false_iff]
  intro hres
  obtain ⟨i, hi⟩ := Option.isSome_iff_exists.mp hres
  obtain ⟨hmem, -⟩ := ((Voting.residencyOK_of_reach h.backfill hsize h.fed).get _ _).mp hi
  have hpassed := List.mem_of_getElem? hmem
  rw [h.passed] at hpassed
  obtain ⟨q, hq, hepoch⟩ := List.mem_map.mp hpassed
  have hasc := (List.pairwise_append.mp (adopted_ascending h.backfill hc)).1
  rw [← List.take_append_drop s.received s.sent] at hasc
  have hdrop : p ∈ s.sent.drop s.received := by
    refine List.mem_of_getElem? (i := 0) ?_
    rw [List.getElem?_drop, Nat.add_zero]
    exact hp
  have hlt := (List.pairwise_append.mp hasc).2.2 q hq p hdrop
  rw [hepoch] at hlt
  exact absurd hlt (Nat.lt_irrefl _)

/-- A policy that arrives opens the round after those there are. -/
theorem Lined.listened (h : Lined dep cfg s) (hsize : 0 < cfg.historySize) (hc : Policy.Consecutive s.policy)
    {p : SigningPolicy} (hp : s.sent[s.received]? = some p) :
    Lined dep cfg { s with
      voting := { s.voting with storage := s.voting.storage.storeNewRound cfg p }
      received := s.received + 1 } := by
  have hlt := (List.getElem?_eq_some_iff.mp hp).1
  refine ⟨h.backfill, ?_, hlt, h.room.trans (by simp only [State.capacity]; omega), ?_⟩
  · rw [Voting.Storage.storeNewRound_new (h.not_resident hsize hc hp), List.map_append, h.rounds]
    change _ = s.sent.take (s.received + 1)
    rw [List.take_add_one, hp]
    rfl
  · have hfed : Voting.Fed cyc s.policy.backlog s.voting (.storeNewRound p) := .inr (h.next hc hp)
    exact h.fed.step hfed rfl

theorem Lined.step {e : Event Log} (h : Lined dep cfg s) (hsize : 0 < cfg.historySize)
    (hc : Policy.Consecutive s.policy)
    (hs : Step pkg dep cfg s e s') : Lined dep cfg s' := by
  cases hs with
  | initialized => exact ⟨h.backfill, h.rounds, h.received, h.room, h.fed⟩
  | listened hp => exact h.listened hsize hc hp
  | @voted e t he ht =>
    refine ⟨h.backfill, (policies_voted he ht).trans h.rounds, h.received, h.room, h.fed.step ?_ ht⟩
    cases e with
    | storeNewRound p => exact absurd rfl (he p)
    | _ => trivial
  | @updated e t ht hroom =>
    obtain ⟨hback, hout | ⟨rfl, p, hout⟩⟩ := policy_sent ht
    · have hsent : ({ s with policy := t } : State Log cyc).sent = s.sent := by rw [State.sent, hback, hout]; rfl
      have hcap : ({ s with policy := t } : State Log cyc).capacity = s.capacity := by rw [State.capacity, hback]; rfl
      exact ⟨hback ▸ h.backfill, by rw [hsent]; exact h.rounds, by rw [hsent]; exact h.received,
        by rw [hsent, hcap]; exact h.room, by rw [hback]; exact h.fed⟩
    · have hsent : ({ s with policy := t } : State Log cyc).sent = s.sent ++ [p] := by
        rw [State.sent, hback, hout, ← List.append_assoc]; rfl
      have hcap : ({ s with policy := t } : State Log cyc).capacity = s.capacity := by rw [State.capacity, hback]; rfl
      refine ⟨hback ▸ h.backfill, ?_, ?_, ?_, by rw [hback]; exact h.fed⟩
      · rw [hsent, List.take_append_of_le_length h.received]
        exact h.rounds
      · rw [hsent, List.length_append]
        exact h.received.trans (Nat.le_add_right _ _)
      · rw [hsent, hcap, List.length_append]
        exact hroom rfl

theorem lined (hsize : 0 < cfg.historySize) (h : Lts.Reach (system pkg dep cyc cfg) (Runs cyc) s) :
    Lined dep cfg s := by
  refine h.invariant (Lined dep cfg) ?_ fun s e s' hr ih _ hs =>
    ih.step hsize (steered hr).consecutive (step_inv hs)
  rintro s ⟨hinit, hreceived, hvoting⟩
  have hout : s.policy.out = [] := by
    obtain ⟨_, _, _, -, -, heq⟩ := hinit.1
    rw [heq]
  refine ⟨backfill_of_initialized hsize hinit, ?_, ?_, ?_, ?_⟩
  · rw [hreceived, hvoting]
    rfl
  · rw [hreceived]
    exact Nat.zero_le _
  · rw [hreceived, Nat.zero_add, State.sent, hout, List.append_nil]
    exact le_max_right _ _
  · rw [hvoting]
    exact .init rfl

/-- **A rollover is safe for the votes.** In every run of the update loop, the
node, the network, the listener and the voting storage, from a fresh start or a
restart on: the rounds are those of the policies sent, in order, as far as they
have been received, and what waits on the channel fits it. No round, and no
vote accepted, is of an epoch the node has not come to; except that on a fresh
start, until the node has applied INITIALIZE_POLICY, they are of the epoch it
is initialized with. The rounds in the buffer are those of the last epochs. And
once everything adopted is sent and received, the newest round is of the active
epoch, and the node at most one epoch further. -/
theorem rollover_safe (hsize : 0 < cfg.historySize) (h : Lts.Reach (system pkg dep cyc cfg) (Runs cyc) s) :
    (s.voting.storage.rounds.map (·.policy) = s.sent.take s.received ∧ s.sent.length ≤ s.received + s.capacity) ∧
    (s.initialized = true → (∀ r ∈ s.voting.storage.rounds, r.policy.rewardEpochID ≤ s.policy.node) ∧
      ∀ v ∈ s.voting.accepted, v.call.data.rewardEpochID ≤ s.policy.node) ∧
    (s.initialized = false → (∀ r ∈ s.voting.storage.rounds, r.policy = s.policy.activePolicy) ∧
      ∀ v ∈ s.voting.accepted, v.call.data.rewardEpochID = s.policy.activePolicy.rewardEpochID) ∧
    (∀ m, s.voting.storage.newest? = some m → ∀ e, s.voting.storage.resident e = true ↔
      e ∈ s.voting.storage.passed ∧ e ≤ m ∧ m.toNat < e.toNat + cfg.historySize) ∧
    (s.received = s.sent.length → s.policy.pc.unsent = none →
      s.voting.storage.newest? = some s.policy.activePolicy.rewardEpochID ∧
      s.policy.node.toNat ≤ s.policy.activePolicy.rewardEpochID.toNat + 1) := by
  have hlined := lined hsize h
  have hsteered := steered h
  have hsent : ∀ r ∈ s.voting.storage.rounds, r.policy ∈ s.sent := fun r hr =>
    List.mem_of_mem_take (hlined.rounds ▸ List.mem_map_of_mem hr)
  have hvote : ∀ v ∈ s.voting.accepted, ∃ r ∈ s.voting.storage.rounds,
      v.call.data.rewardEpochID = r.policy.rewardEpochID := by
    intro v hv
    obtain ⟨r, hr, hcall⟩ := (Voting.vouched (Q := fun _ => True) (fun _ _ _ => trivial) hlined.fed).accepted v hv
    exact ⟨r, List.mem_of_getElem? hr, hcall.epoch⟩
  have hround : ∀ r ∈ s.voting.storage.rounds, r.policy.rewardEpochID ≤ s.policy.node := fun r hr =>
    UInt32.le_trans (sent_le_active hlined.backfill hsteered.consecutive (hsent r hr)) hsteered.lockstep.active_le_node
  refine ⟨⟨hlined.rounds, hlined.room⟩, fun _ => ⟨hround, fun v hv => ?_⟩, fun hnot => ?_, fun m hm =>
    (Voting.residencyOK_of_reach hlined.backfill hsize hlined.fed).resident_iff hm,
    fun hall hunsent => ⟨?_, hsteered.lockstep.node_le⟩⟩
  · obtain ⟨r, hr, hepoch⟩ := hvote v hv
    rw [hepoch]
    exact hround r hr
  · have hfresh := hsteered.fresh hnot
    have hfirst : ∀ r ∈ s.voting.storage.rounds, r.policy = s.policy.activePolicy := by
      intro r hr
      have hmem := hsent r hr
      rw [State.sent, hfresh.out, List.append_nil, hfresh.backlog] at hmem
      exact List.mem_singleton.mp hmem
    refine ⟨hfirst, fun v hv => ?_⟩
    obtain ⟨r, hr, hepoch⟩ := hvote v hv
    rw [hepoch, hfirst r hr]
  · have hlast := adopted_last hsteered.consecutive
    rw [State.adopted, hunsent, Option.toList_none, List.append_nil] at hlast
    rw [Voting.Storage.newest?, hlined.passed, hall, List.take_length, List.getLast?_map, hlast]
    rfl

end Runs

/-- A fresh start. The first round is opened before the node has its policy;
then two updates, of which the listener has received the first. -/
def oneBehind : List (Event SigningPolicy) :=
  .listen :: .initializePolicy :: Policy.twoUpdates.map .policy ++ [.listen]

theorem rollover_safe_oneBehind :
    ∃ s, Lts.Reach (system Policy.plainPkg Voting.plainDeps .slots Voting.plainConfig) (Runs .slots) s ∧
      s.voting.storage.passed = [7, 8] ∧ s.sent.map (·.rewardEpochID) = [7, 8, 9] ∧
      s.voting.storage.resident 7 = true ∧ ∀ r ∈ s.voting.storage.rounds, r.policy.rewardEpochID ≤ s.policy.node := by
  have hrun : ((system Policy.plainPkg Voting.plainDeps .slots Voting.plainConfig).runIf (Runs .slots)
      ⟨Policy.plainStart, 0, Voting.start .slots Voting.plainConfig, false⟩ oneBehind).any (fun s =>
        s.initialized = true ∧ s.voting.storage.passed = [7, 8] ∧ s.sent.map (·.rewardEpochID) = [7, 8, 9]) := by
    decide +kernel
  obtain ⟨s, hs, hend⟩ := (Option.any_eq_true _ _).mp hrun
  obtain ⟨hyes, hpassed, hsent⟩ := of_decide_eq_true hend
  have hinit : Initialized Policy.plainPkg Voting.plainConfig false Policy.plainStart :=
    ⟨⟨none, _, 0, fun _ h => (by cases h), by decide, rfl⟩, .inl ⟨rfl, rfl⟩⟩
  have hreach : Lts.Reach (system Policy.plainPkg Voting.plainDeps .slots Voting.plainConfig) (Runs .slots) s :=
    .of_runIf (.init ⟨hinit, rfl, rfl⟩) hs
  obtain ⟨-, hnode, -, hresident, -⟩ := rollover_safe (by decide) hreach
  refine ⟨s, hreach, hpassed, hsent, (hresident 8 (by rw [Voting.Storage.newest?, hpassed]; rfl) 7).mpr ?_,
    (hnode hyes).1⟩
  rw [hpassed]
  decide

end TeeProxy.Rollover
