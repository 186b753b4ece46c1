/-
The proxy's active policy and the node's stay within one epoch.

Every action on the network carries at most the policy after the active one,
and a response with status 1 says that the node has come as far as its
action's policy. So what the loop adopts, be it a confirmed policy or the
node's own, is the one after the active policy, and the node cannot have
gone past it.
-/
import TeeProxy.Policy.Update
import Mathlib.Data.List.Chain

namespace TeeProxy.Policy

variable {Log Init : Type} {pkg : PolicyPkg Log Init}

/-- `q` is of the epoch after `p`'s. -/
def Next (p q : SigningPolicy) : Prop := q.rewardEpochID.toNat = p.rewardEpochID.toNat + 1

/-- The active epoch is below 2³²-1, and the random ID of a new action is not
that of another one. -/
def Steady (s : State Log) (e : Event Log) : Prop :=
  s.activePolicy.rewardEpochID.toNat < 2 ^ 32 - 1 ∧
    match e with
    | .build _ (.ok id) _ => ∀ m ∈ s.network, m.action.data.id ≠ id
    | _ => True

instance (s : State Log) (e : Event Log) : Decidable (Steady s e) := by
  unfold Steady
  split <;> infer_instance

/-! ## Node and network -/

/-- What the loop relies on between two of its steps. -/
def PCOk (s : State Log) : Prop :=
  match s.pc with
  | .reconciling nodeID => s.activePolicy.rewardEpochID < nodeID ∧ nodeID ≤ s.node
  | .enqueueing a p | .awaiting a p =>
    Next s.activePolicy p ∧ ∀ m ∈ s.network, m.action.data.id = a.data.id → m.policy.rewardEpochID = p.rewardEpochID
  | _ => True

/-- The node is at the active epoch or at the one after it, nothing on the
network is past that, and an update with a response of status 1 the node has
applied. -/
structure Lockstep (s : State Log) : Prop where
  node : s.node = s.activePolicy.rewardEpochID ∨ s.node.toNat = s.activePolicy.rewardEpochID.toNat + 1
  view : s.lastAppliedPolicyID ≤ s.node
  network : ∀ m ∈ s.network, m.policy.rewardEpochID.toNat ≤ s.activePolicy.rewardEpochID.toNat + 1
  responses : ∀ resp ∈ s.responses, resp.status = 1 →
    ∃ m ∈ s.network, m.action.data.id = resp.id ∧ m.policy.rewardEpochID ≤ s.node
  pc : PCOk s

theorem Lockstep.active_le_node {s : State Log} (h : Lockstep s) : s.activePolicy.rewardEpochID ≤ s.node := by
  rw [UInt32.le_iff_toNat_le]
  rcases h.node with heq | heq
  · rw [heq]
  · omega

theorem Lockstep.node_le {s : State Log} (h : Lockstep s) : s.node.toNat ≤ s.activePolicy.rewardEpochID.toNat + 1 := by
  rcases h.node with heq | heq
  · rw [heq]; omega
  · omega

/-- Below the bound, the next epoch is one more as a number. -/
theorem toNat_succ {n : UInt32} (h : n.toNat < 2 ^ 32 - 1) : (n + 1).toNat = n.toNat + 1 := by
  have h1 : (1 : UInt32).toNat = 1 := rfl
  rw [UInt32.toNat_add, h1, Nat.mod_eq_of_lt (by omega)]

/-- The node's policy, where it is ahead, is the one after the active one. -/
theorem Lockstep.next_of_reconciling {s : State Log} {p : SigningPolicy} (h : Lockstep s)
    (hpc : s.pc = .reconciling p.rewardEpochID) : Next s.activePolicy p ∧ s.node = p.rewardEpochID := by
  have hle := h.node_le
  have hok := h.pc
  simp only [PCOk, hpc, UInt32.lt_iff_toNat_lt, UInt32.le_iff_toNat_le] at hok
  refine ⟨?_, UInt32.toNat_inj.mp (by omega)⟩
  unfold Next
  omega

/-- A response with status 1 says that the node has the policy. -/
theorem Lockstep.next_of_confirmed {s : State Log} {a : Action} {p : SigningPolicy} {resp : Response} (h : Lockstep s)
    (hpc : s.pc = .awaiting a p) (hr : resp ∈ s.responses) (hid : resp.id = a.data.id) (hst : resp.status = 1) :
    Next s.activePolicy p ∧ s.node = p.rewardEpochID := by
  have hle := h.node_le
  have hok := h.pc
  simp only [PCOk, hpc] at hok
  obtain ⟨hnext, hsame⟩ := hok
  obtain ⟨m, hm, hmid, hmle⟩ := h.responses resp hr hst
  rw [hsame m hm (hmid.trans hid), UInt32.le_iff_toNat_le] at hmle
  refine ⟨hnext, UInt32.toNat_inj.mp ?_⟩
  unfold Next at hnext
  omega

theorem Lockstep.adopt {s : State Log} {p : SigningPolicy} (h : Lockstep s) (hnext : Next s.activePolicy p)
    (hnode : s.node = p.rewardEpochID) : Lockstep ({ s with activePolicy := p, pc := .emitting p } : State Log) := by
  refine { h with node := .inl hnode, network := fun m hm => ?_, pc := trivial }
  have := h.network m hm
  unfold Next at hnext
  dsimp only
  omega

/-- The node moves on, and what the loop relies on stays. -/
theorem PCOk.node_mono {s s' : State Log} (h : PCOk s) (hpc : s'.pc = s.pc) (ha : s'.activePolicy = s.activePolicy)
    (hnet : s'.network = s.network) (hnode : s.node ≤ s'.node) : PCOk s' := by
  unfold PCOk at h ⊢
  rw [hpc, ha, hnet]
  split
  next heq => simp only [heq] at h; exact ⟨h.1, UInt32.le_trans h.2 hnode⟩
  next heq => simpa only [heq] using h
  next heq => simpa only [heq] using h
  next => trivial

theorem Lockstep.step {s s' : State Log} {e : Event Log} (h : Lockstep s) (he : Steady s e) (hs : Step s e s') :
    Lockstep s' := by
  cases hs with
  | returned | dropped | retried | found | emitted | abreast => exact { h with pc := trivial }
  | behind hpc hlt => exact { h with pc := ⟨hlt, h.view⟩ }
  | reconciled hpc hp =>
    subst hp
    exact h.adopt (h.next_of_reconciling hpc).1 (h.next_of_reconciling hpc).2
  | @built _ _ _ a p hpc hp =>
    have hnext : Next s.activePolicy p := by rw [Next, hp, toNat_succ he.1]
    exact { h with pc := ⟨hnext, fun m hm hid => absurd hid (he.2 m hm)⟩ }
  | @enqueued sent ok a p hpc =>
    have hpcok := h.pc
    simp only [PCOk, hpc] at hpcok
    obtain ⟨hnext, hids⟩ := hpcok
    have hmem : ∀ m, m ∈ (if sent then s.network ++ [⟨a, p⟩] else s.network) → m ∈ s.network ∨ m = ⟨a, p⟩ := by
      intro m hm
      cases sent with
      | false => exact .inl hm
      | true => simpa using hm
    refine { h with network := ?_, responses := ?_, pc := ?_ }
    · intro m hm
      rcases hmem m hm with hm | rfl
      · exact h.network m hm
      · exact Nat.le_of_eq hnext
    · intro resp hr hst
      obtain ⟨m, hm, hmid, hmle⟩ := h.responses resp hr hst
      refine ⟨m, ?_, hmid, hmle⟩
      cases sent with
      | false => exact hm
      | true => exact List.mem_append_left _ hm
    · cases ok with
      | false => trivial
      | true =>
        refine ⟨hnext, fun m hm hid => ?_⟩
        rcases hmem m hm with hm | rfl
        · exact hids m hm hid
        · rfl
  | confirmed hpc hr hid hst =>
    obtain ⟨hnext, hnode⟩ := h.next_of_confirmed hpc hr hid hst
    exact h.adopt hnext hnode
  | @applied n refusal stored m responses hm happ hresp =>
    have hup : s.node ≤ m.policy.rewardEpochID := by rw [UInt32.le_iff_toNat_le]; omega
    have hbound := h.network m hm
    have hlow := h.active_le_node
    rw [UInt32.le_iff_toNat_le] at hlow
    refine { h with
      node := .inr (by dsimp only; omega)
      view := UInt32.le_trans h.view hup
      responses := ?_
      pc := h.pc.node_mono rfl rfl rfl hup }
    intro resp hr hst
    rcases hresp resp hr with hr | hid
    · obtain ⟨m', hm', hmid, hmle⟩ := h.responses resp hr hst
      exact ⟨m', hm', hmid, UInt32.le_trans hmle hup⟩
    · exact ⟨m, hm, hid.symm, UInt32.le_refl _⟩
  | refused hresp =>
    exact { h with
      responses := fun resp hr hst => h.responses resp (hresp resp hr hst) hst
      pc := h.pc.node_mono rfl rfl rfl (UInt32.le_refl _) }
  | refreshed hid => exact { h with view := hid, pc := h.pc.node_mono rfl rfl rfl (UInt32.le_refl _) }

theorem lockstep {s : State Log} (h : Lts.Reach (system pkg) Steady s) : Lockstep s := by
  refine h.invariant Lockstep ?_ fun s e s' _ ih he hs => ih.step he (step_inv hs)
  rintro s ⟨restartPolicies, activePolicy, view, -, hview, rfl⟩
  exact ⟨.inl rfl, hview, (fun m hm => by cases hm), (fun m hm => by cases hm), trivial⟩

/-! ## The channel -/

/-- A step leaves the active policy and what is sent or about to be, or adopts
the next policy, which is then about to be sent. -/
inductive Move (s s' : State Log) : Prop
  | kept : s'.activePolicy = s.activePolicy → s'.backlog = s.backlog →
      s'.out ++ s'.pc.unsent.toList = s.out ++ s.pc.unsent.toList → Move s s'
  | adopted {p} : Next s.activePolicy p → s.pc.unsent = none →
      s' = { s with activePolicy := p, pc := .emitting p } → Move s s'

theorem Lockstep.move {s s' : State Log} {e : Event Log} (h : Lockstep s) (hs : Step s e s') : Move s s' := by
  cases hs with
  | returned hpc | behind hpc | abreast hpc | found hpc | built hpc => exact .kept rfl rfl (by rw [hpc]; rfl)
  | dropped hpc => exact .kept rfl rfl (by rw [hpc]; rfl)
  | retried hpc => exact .kept rfl rfl (by rw [hpc]; rfl)
  | @enqueued sent ok a p hpc => exact .kept rfl rfl (by rw [hpc]; cases ok <;> rfl)
  | emitted hpc => exact .kept rfl rfl (by rw [hpc]; exact List.append_nil _)
  | applied | refused | refreshed => exact .kept rfl rfl rfl
  | reconciled hpc hp =>
    subst hp
    exact .adopted (h.next_of_reconciling hpc).1 (by rw [hpc]; rfl) rfl
  | confirmed hpc hr hid hst => exact .adopted (h.next_of_confirmed hpc hr hid hst).1 (by rw [hpc]; rfl) rfl

/-- From the policy active at the start on, each policy sent, and the one
about to be, comes after the one before it, up to the active one. -/
def Consecutive (s : State Log) : Prop :=
  ∃ first, s.backlog.getLast? = some first ∧ List.IsChain Next (first :: (s.out ++ s.pc.unsent.toList)) ∧
    (first :: (s.out ++ s.pc.unsent.toList)).getLast? = some s.activePolicy

theorem Consecutive.move {s s' : State Log} (h : Consecutive s) (hm : Move s s') : Consecutive s' := by
  obtain ⟨first, hfirst, hchain, hlast⟩ := h
  cases hm with
  | kept ha hb hsent => exact ⟨first, hb ▸ hfirst, hsent ▸ hchain, by rw [hsent, ha]; exact hlast⟩
  | @adopted p hnext hunsent hs' =>
    subst hs'
    rw [hunsent, Option.toList_none, List.append_nil] at hchain hlast
    refine ⟨first, hfirst, ?_, ?_⟩
    · rw [PC.unsent, Option.toList_some, ← List.cons_append]
      refine hchain.append (List.isChain_singleton p) ?_
      intro x hx y hy
      cases hlast.symm.trans hx
      cases hy
      exact hnext
    · rw [PC.unsent, Option.toList_some, ← List.cons_append, List.getLast?_concat]

theorem consecutive {s : State Log} (h : Lts.Reach (system pkg) Steady s) : Consecutive s := by
  refine h.invariant Consecutive ?_ fun s e s' hr ih _ hs => ih.move ((lockstep hr).move (step_inv hs))
  rintro s ⟨restartPolicies, activePolicy, view, hlast, -, rfl⟩
  refine ⟨activePolicy, ?_, List.isChain_singleton _, rfl⟩
  cases restartPolicies with
  | none => rfl
  | some policies => exact hlast policies rfl

/-- **The rollover stays in lockstep**, for every interleaving of the loop,
the node, the network and the node's state as the proxy sees it: the node's
epoch is the active one or the one after; a step changes the active policy
only to one of the next epoch; and the loop sends, one after the other, the
policies after the last one sent before it started, so that a backlog
without gaps makes a channel without gaps. -/
theorem policy_lockstep {s : State Log} (h : Lts.Reach (system pkg) Steady s) :
    (s.node = s.activePolicy.rewardEpochID ∨ s.node.toNat = s.activePolicy.rewardEpochID.toNat + 1) ∧
    (∀ e s', Steady s e → (system pkg).step s e = some s' →
      s'.activePolicy = s.activePolicy ∨ Next s.activePolicy s'.activePolicy) ∧
    (∃ first, s.backlog.getLast? = some first ∧ List.IsChain Next (first :: s.out)) ∧
    (List.IsChain Next s.backlog → List.IsChain Next (s.backlog ++ s.out)) := by
  obtain ⟨first, hfirst, hchain, -⟩ := consecutive h
  rw [← List.cons_append] at hchain
  have hout : List.IsChain Next ([first] ++ s.out) := hchain.left_of_append
  refine ⟨(lockstep h).node, fun e s' _ hs => ?_, ⟨first, hfirst, hout⟩, fun hback => ?_⟩
  · cases (lockstep h).move (step_inv hs) with
    | kept ha => exact .inl ha
    | adopted hnext _ hs' => subst hs'; exact .inr hnext
  · obtain ⟨-, hrest, hjoin⟩ := List.isChain_append.mp hout
    refine hback.append hrest fun x hx y hy => hjoin x ?_ y hy
    rw [hfirst] at hx
    exact hx

/-! ## A small rollover -/

/-- Logs that are policies. -/
def plainPkg : PolicyPkg SigningPolicy SigningPolicy := ⟨.ok, .ok⟩

def plainPolicy (epoch : UInt32) : SigningPolicy := ⟨epoch, 0, .ofMap ∅⟩

/-- The action for `epoch` is built, enqueued and delivered. -/
def applied (epoch : UInt32) (n : Nat) : List (Event SigningPolicy) :=
  [.readState, .fetch (.ok [plainPolicy epoch]), .build (.ok []) (.ok (.ofNat 256 n)) .ok, .enqueue true true,
    .deliver n 0 true]

/-- The first update is confirmed; the second's confirmation is lost, and the
node's state shows it. -/
def twoUpdates : List (Event SigningPolicy) :=
  applied 8 0 ++ [.await (some 0), .emit] ++
    applied 9 1 ++ [.await none, .refresh 9, .readState, .reconcile (.ok [plainPolicy 9]), .emit]

/-- A fresh start at epoch seven. -/
def plainStart : State SigningPolicy := ⟨plainPolicy 7, .loop, [plainPolicy 7], [], [], [], 7, 0⟩

theorem policy_lockstep_twoUpdates :
    ∃ s, Lts.Reach (system plainPkg) Steady s ∧ s.out.map SigningPolicy.rewardEpochID = [8, 9] ∧
      (s.node = s.activePolicy.rewardEpochID ∨ s.node.toNat = s.activePolicy.rewardEpochID.toNat + 1) := by
  have hrun : ((system plainPkg).runIf Steady plainStart twoUpdates).any
      (fun s => s.out.map SigningPolicy.rewardEpochID = [8, 9]) := by decide +kernel
  obtain ⟨s, hs, hend⟩ := (Option.any_eq_true _ _).mp hrun
  have hstart : Started plainStart := ⟨none, plainPolicy 7, 0, (by rintro _ ⟨⟩), by decide, rfl⟩
  have hreach := Lts.Reach.of_runIf (.init hstart) hs
  exact ⟨s, hreach, of_decide_eq_true hend, (policy_lockstep hreach).1⟩

end TeeProxy.Policy
