/-
The signing-policy update loop (`internal/service/policy/policy.go`), with
the node, the network and the node's state as the proxy sees it.

What the indexer, the signature collection, the random IDs and the JSON
encoder answer is part of the event, so it can change from call to call and
fail at any time. The node applies a policy exactly when its own is the one
before. An enqueued action can reach it never, late, or more than once, and
its answer can be lost.
-/
import TeeProxy.Lib.Lts
import TeeProxy.Queue.ActionQueues

namespace TeeProxy.Policy

/-! ## Fetching policies -/

/-- go-flare-common's `policy`: the event a log holds and the policy the event
initializes. -/
structure PolicyPkg (Log Init : Type) where
  parseSigningPolicyInitializedEvent : Log → Except PkgErr Init
  newSigningPolicy : Init → Except PkgErr SigningPolicy

/-- The errors of `FetchSigningPolicy`. -/
inductive FetchErr
  | fetching (id : UInt32) (e : PkgErr)
  | parsing (id : UInt32) (e : PkgErr)
  | creating (id : UInt32) (e : PkgErr)
  deriving DecidableEq, Repr

/-- The errors of an update action. -/
inductive UpdateErr
  | parsing (e : PkgErr)
  | creating (e : PkgErr)
  | notConsecutivePolicy
  | preparingMessage (e : PkgErr)
  | preparingAction (e : PkgErr)
  deriving DecidableEq, Repr

section Fetch

variable {Log Init : Type}

/-- `rows` is the answer of the indexer's query for the policy's ID. -/
def fetchSigningPolicyLog (rows : Except PkgErr (List Log)) (signingPolicyID : UInt32) :
    Except FetchErr (Option Log) :=
  match rows with
  | .error e => .error (.fetching signingPolicyID e)
  | .ok logs => .ok logs.head?

/-- `FetchSigningPolicy`: the first row's policy, if it is of the epoch asked
for. -/
def fetchSigningPolicy (pkg : PolicyPkg Log Init) (rows : Except PkgErr (List Log)) (signingPolicyID : UInt32) :
    Except FetchErr (Option SigningPolicy) :=
  match fetchSigningPolicyLog rows signingPolicyID with
  | .error e => .error e
  | .ok none => .ok none
  | .ok (some log) => match pkg.parseSigningPolicyInitializedEvent log with
    | .error e => .error (.parsing signingPolicyID e)
    | .ok event => match pkg.newSigningPolicy event with
      | .error e => .error (.creating signingPolicyID e)
      | .ok p => if p.rewardEpochID ≠ signingPolicyID then .ok none else .ok (some p)

/-- `prepareUpdatePolicyMessage`: `collectSignatures` looks at the epochs
first; `message` is what the rest of it comes to. -/
def prepareUpdatePolicyMessage (message : Except PkgErr Bytes) (nextPolicy activePolicy : SigningPolicy) :
    Except UpdateErr Bytes :=
  if nextPolicy.rewardEpochID ≠ activePolicy.rewardEpochID + 1 then .error .notConsecutivePolicy
  else match message with
    | .error e => .error (.preparingMessage e)
    | .ok msg => .ok msg

/-- `id` is the random ID and `marshal` the JSON form of the instruction with
a message. -/
def updatePolicyAction (pkg : PolicyPkg Log Init) (log : Log) (activePolicy : SigningPolicy)
    (message : Except PkgErr Bytes) (id : Except PkgErr Hash) (marshal : Bytes → Except PkgErr Bytes) :
    Except UpdateErr (Action × SigningPolicy) :=
  match pkg.parseSigningPolicyInitializedEvent log with
  | .error e => .error (.parsing e)
  | .ok event => match pkg.newSigningPolicy event with
    | .error e => .error (.creating e)
    | .ok p => match prepareUpdatePolicyMessage message p activePolicy with
      | .error e => .error e
      | .ok msg => match Queue.directInstructionToAction id (marshal msg) with
        | .error e => .error (.preparingAction e)
        | .ok action => .ok (action, p)

theorem fetchSigningPolicy_some {pkg : PolicyPkg Log Init} {rows : Except PkgErr (List Log)} {id : UInt32}
    {p : SigningPolicy} (h : fetchSigningPolicy pkg rows id = .ok (some p)) : p.rewardEpochID = id := by
  unfold fetchSigningPolicy at h
  split at h
  · cases h
  · cases h
  split at h
  · cases h
  split at h
  · cases h
  split at h
  · cases h
  next hid => cases h; exact not_not.mp hid

theorem updatePolicyAction_ok {pkg : PolicyPkg Log Init} {log : Log} {active p : SigningPolicy}
    {message : Except PkgErr Bytes} {id : Except PkgErr Hash} {marshal : Bytes → Except PkgErr Bytes} {a : Action}
    (h : updatePolicyAction pkg log active message id marshal = .ok (a, p)) :
    p.rewardEpochID = active.rewardEpochID + 1 ∧ id = .ok a.data.id ∧ a.data.submissionTag = .submit := by
  unfold updatePolicyAction at h
  split at h
  · cases h
  split at h
  · cases h
  split at h
  · cases h
  next hm =>
  split at h
  · cases h
  next ha =>
  cases h
  refine ⟨?_, Queue.directInstructionToAction_ok ha⟩
  unfold prepareUpdatePolicyMessage at hm
  split at hm
  · cases hm
  next hid => exact not_not.mp hid

end Fetch

/-! ## The update loop -/

/-- Where `update` is: at the head of the loop, fetching the policy the node
has, fetching the next log, building the action from it, enqueueing the
action, waiting for its response, sending a policy on the channel, or
returned, with the policy it could not send. -/
inductive PC (Log : Type)
  | loop
  | reconciling (nodeID : UInt32)
  | fetching
  | building (log : Log)
  | enqueueing (action : Action) (newPolicy : SigningPolicy)
  | awaiting (action : Action) (newPolicy : SigningPolicy)
  | emitting (p : SigningPolicy)
  | returned (unsent : Option SigningPolicy)

/-- The policy that is active and not yet on the channel. -/
def PC.unsent {Log : Type} : PC Log → Option SigningPolicy
  | .emitting p => some p
  | .returned p => p
  | _ => none

/-- An UPDATE_POLICY action and the policy it carries. -/
structure Update where
  action : Action
  policy : SigningPolicy

/-- A response of the node in the result storage. -/
structure Response where
  id : Hash
  submissionTag : SubmissionTag
  status : UInt8

/-- The loop and what it sent, the network between it and the node, and the
node. -/
structure State (Log : Type) where
  activePolicy : SigningPolicy
  pc : PC Log
  /-- What `Run` sent on the channel before the loop. -/
  backlog : List SigningPolicy
  /-- What the loop sent. -/
  out : List SigningPolicy
  network : List Update
  responses : List Response
  node : UInt32
  lastAppliedPolicyID : UInt32

/-- A step of the loop, a delivery to the node, or a refresh of its state. -/
inductive Event (Log : Type)
  | cancel
  | readState
  | reconcile (rows : Except PkgErr (List Log))
  | fetch (rows : Except PkgErr (List Log))
  | build (message : Except PkgErr Bytes) (id : Except PkgErr Hash) (marshal : Bytes → Except PkgErr Bytes)
  | enqueue (sent ok : Bool)
  | await (response : Option Nat)
  | emit
  | deliver (n : Nat) (refusal : UInt8) (stored : Bool)
  | refresh (id : UInt32)

section System

variable {Log Init : Type} (pkg : PolicyPkg Log Init)

/-- A failed attempt waits and goes back to the head of the loop. A retried
enqueue counts as one, which can leave the action in the queue and still
report a failure. -/
def step (s : State Log) : Event Log → Option (State Log)
  | .cancel => match s.pc with
    | .loop => some { s with pc := .returned none }
    | .emitting p => some { s with pc := .returned (some p) }
    | _ => none
  | .readState => match s.pc with
    | .loop =>
      if s.lastAppliedPolicyID > s.activePolicy.rewardEpochID then
        some { s with pc := .reconciling s.lastAppliedPolicyID }
      else some { s with pc := .fetching }
    | _ => none
  | .reconcile rows => match s.pc with
    | .reconciling nodeID => match fetchSigningPolicy pkg rows nodeID with
      | .error _ => some { s with pc := .loop }
      | .ok none => some { s with pc := .loop }
      | .ok (some p) => some { s with activePolicy := p, pc := .emitting p }
    | _ => none
  | .fetch rows => match s.pc with
    | .fetching => match fetchSigningPolicyLog rows (s.activePolicy.rewardEpochID + 1) with
      | .error _ => some { s with pc := .loop }
      | .ok none => some { s with pc := .loop }
      | .ok (some log) => some { s with pc := .building log }
    | _ => none
  | .build message id marshal => match s.pc with
    | .building log => match updatePolicyAction pkg log s.activePolicy message id marshal with
      | .error _ => some { s with pc := .loop }
      | .ok (action, newPolicy) => some { s with pc := .enqueueing action newPolicy }
    | _ => none
  | .enqueue sent ok => match s.pc with
    | .enqueueing action newPolicy => some { s with
        network := if sent then s.network ++ [⟨action, newPolicy⟩] else s.network
        pc := if ok then .awaiting action newPolicy else .loop }
    | _ => none
  | .await response => match s.pc with
    | .awaiting action newPolicy => match response with
      | none => some { s with pc := .loop }
      | some n => match s.responses[n]? with
        | none => none
        | some resp =>
          if resp.id = action.data.id ∧ resp.submissionTag = action.data.submissionTag then
            if resp.status ≠ 1 then some { s with pc := .loop }
            else some { s with activePolicy := newPolicy, pc := .emitting newPolicy }
          else none
    | _ => none
  | .emit => match s.pc with
    | .emitting p => some { s with out := s.out ++ [p], pc := .loop }
    | _ => none
  -- The node applies the policy after its own, and answers 1 exactly then.
  | .deliver n refusal stored => match s.network[n]? with
    | none => none
    | some m =>
      let applied := s.node.toNat + 1 = m.policy.rewardEpochID.toNat
      if ¬ applied ∧ refusal = 1 then none
      else
        let resp : Response := ⟨m.action.data.id, m.action.data.submissionTag, if applied then 1 else refusal⟩
        some { s with
          node := if applied then m.policy.rewardEpochID else s.node
          responses := if stored then s.responses ++ [resp] else s.responses }
  | .refresh id =>
    if s.lastAppliedPolicyID ≤ id ∧ id ≤ s.node then some { s with lastAppliedPolicyID := id } else none

/-- What `Run` sends before it starts the loop. -/
def run (restartPolicies : Option (List SigningPolicy)) (activePolicy : SigningPolicy) : List SigningPolicy :=
  match restartPolicies with
  | some policies => policies
  | none => [activePolicy]

/-- `Run` after `Initialize`: the active policy is the last of those loaded on
a restart, and the node's. -/
def Started (s : State Log) : Prop :=
  ∃ restartPolicies activePolicy lastAppliedPolicyID,
    (∀ policies, restartPolicies = some policies → policies.getLast? = some activePolicy) ∧
    lastAppliedPolicyID ≤ activePolicy.rewardEpochID ∧
    s = ⟨activePolicy, .loop, run restartPolicies activePolicy, [], [], [], activePolicy.rewardEpochID,
      lastAppliedPolicyID⟩

/-- The update loop, the network and the node. -/
def system : Lts.System (State Log) (Event Log) where
  init := Started
  step := step pkg

end System

/-! ## What a step can do -/

section Inversion

variable {Log Init : Type} {pkg : PolicyPkg Log Init}

/-- **Everything a step can do.** -/
inductive Step (s : State Log) : Event Log → State Log → Prop
  | returned : s.pc = .loop → Step s .cancel { s with pc := .returned none }
  | dropped {p} : s.pc = .emitting p → Step s .cancel { s with pc := .returned (some p) }
  | behind : s.pc = .loop → s.activePolicy.rewardEpochID < s.lastAppliedPolicyID →
      Step s .readState { s with pc := .reconciling s.lastAppliedPolicyID }
  | abreast : s.pc = .loop → Step s .readState { s with pc := .fetching }
  | retried {e} : s.pc.unsent = none → Step s e { s with pc := .loop }
  | reconciled {rows nodeID p} : s.pc = .reconciling nodeID → p.rewardEpochID = nodeID →
      Step s (.reconcile rows) { s with activePolicy := p, pc := .emitting p }
  | found {rows log} : s.pc = .fetching → Step s (.fetch rows) { s with pc := .building log }
  | built {message marshal log a p} : s.pc = .building log →
      p.rewardEpochID = s.activePolicy.rewardEpochID + 1 →
      Step s (.build message (.ok a.data.id) marshal) { s with pc := .enqueueing a p }
  | enqueued {sent ok a p} : s.pc = .enqueueing a p →
      Step s (.enqueue sent ok) { s with
        network := if sent then s.network ++ [⟨a, p⟩] else s.network
        pc := if ok then .awaiting a p else .loop }
  | confirmed {n a p resp} : s.pc = .awaiting a p → resp ∈ s.responses → resp.id = a.data.id → resp.status = 1 →
      Step s (.await n) { s with activePolicy := p, pc := .emitting p }
  | emitted {p} : s.pc = .emitting p → Step s .emit { s with out := s.out ++ [p], pc := .loop }
  | applied {n refusal stored m responses} : m ∈ s.network → s.node.toNat + 1 = m.policy.rewardEpochID.toNat →
      (∀ resp ∈ responses, resp ∈ s.responses ∨ resp.id = m.action.data.id) →
      Step s (.deliver n refusal stored) { s with node := m.policy.rewardEpochID, responses }
  | refused {n refusal stored responses} :
      (∀ resp ∈ responses, resp.status = 1 → resp ∈ s.responses) →
      Step s (.deliver n refusal stored) { s with responses }
  | refreshed {id} : id ≤ s.node → Step s (.refresh id) { s with lastAppliedPolicyID := id }

theorem step_inv {s s' : State Log} {e : Event Log} (h : step pkg s e = some s') : Step s e s' := by
  cases e with
  | cancel =>
    simp only [step] at h
    split at h
    next hpc => cases h; exact .returned hpc
    next hpc => cases h; exact .dropped hpc
    next => cases h
  | readState =>
    simp only [step] at h
    split at h
    next hpc =>
      split at h
      next hgt => cases h; exact .behind hpc hgt
      next => cases h; exact .abreast hpc
    next => cases h
  | reconcile rows =>
    simp only [step] at h
    split at h
    next hpc =>
      split at h
      · cases h; exact .retried (by rw [hpc]; rfl)
      · cases h; exact .retried (by rw [hpc]; rfl)
      next hf => cases h; exact .reconciled hpc (fetchSigningPolicy_some hf)
    next => cases h
  | fetch rows =>
    simp only [step] at h
    split at h
    next hpc =>
      split at h
      · cases h; exact .retried (by rw [hpc]; rfl)
      · cases h; exact .retried (by rw [hpc]; rfl)
      · cases h; exact .found hpc
    next => cases h
  | build message id marshal =>
    simp only [step] at h
    split at h
    next hpc =>
      split at h
      · cases h; exact .retried (by rw [hpc]; rfl)
      next hb =>
        cases h
        obtain ⟨hp, rfl, -⟩ := updatePolicyAction_ok hb
        exact .built hpc hp
    next => cases h
  | enqueue sent ok =>
    simp only [step] at h
    split at h
    next hpc => cases h; exact .enqueued hpc
    next => cases h
  | await response =>
    simp only [step] at h
    split at h
    next hpc =>
      split at h
      · cases h; exact .retried (by rw [hpc]; rfl)
      split at h
      · cases h
      next resp hn =>
      split at h
      next hid =>
        split at h
        · cases h; exact .retried (by rw [hpc]; rfl)
        next hst => cases h; exact .confirmed hpc (List.mem_of_getElem? hn) hid.1 (not_not.mp hst)
      next => cases h
    next => cases h
  | emit =>
    simp only [step] at h
    split at h
    next hpc => cases h; exact .emitted hpc
    next => cases h
  | deliver n refusal stored =>
    simp only [step] at h
    split at h
    · cases h
    next m hn =>
    split at h
    · cases h
    next hok =>
    by_cases happ : s.node.toNat + 1 = m.policy.rewardEpochID.toNat
    · simp only [happ, if_true, Option.some.injEq] at h
      subst h
      refine .applied (List.mem_of_getElem? hn) happ fun resp hr => ?_
      cases stored with
      | false => exact .inl hr
      | true =>
        rcases List.mem_append.mp hr with hr | hr
        · exact .inl hr
        · cases List.mem_singleton.mp hr; exact .inr rfl
    · simp only [happ, if_false, Option.some.injEq] at h
      subst h
      refine .refused fun resp hr hst => ?_
      cases stored with
      | false => exact hr
      | true =>
        rcases List.mem_append.mp hr with hr | hr
        · exact hr
        · cases List.mem_singleton.mp hr
          exact absurd ⟨happ, hst⟩ hok
  | refresh id =>
    simp only [step] at h
    split at h
    next hid => cases h; exact .refreshed hid.2
    next => cases h

end Inversion

end TeeProxy.Policy
