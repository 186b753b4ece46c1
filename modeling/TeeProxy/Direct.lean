/-
Who a direct action comes from: `POST /direct` (`directH`, `verifyAPIKey` and
`validateDirect` of `internal/server/external.go`) and the services' own
requests (`PrepareDirectAction` of `internal/queue/action.go` and its callers),
next to the votes and the queues of `TeeProxy.Authority`.

The node carries out what it is given on the direct and the backup queue, and a
client may put actions there. Whatever is lost, replaced or redelivered on the
way, an action of these queues holds an instruction that one of the services
made, or one of a client with the API key, and then its operation type is not a
system one (`direct_authorised`).
-/
import TeeProxy.Authority
import TeeProxy.Voting.Order

namespace TeeProxy.Direct

open Queue (Json QueueID)
open Server (External DirectInstruction Authorized)
open Voting (CyclicPkg)
open GoPanic (Fault returns deref)

/-! ## Requests of clients -/

/-- `directH` up to the action: the instruction it is made of. -/
def instructionOf (e : External) (key body : Bytes) : Except (Fault Server.Err) DirectInstruction := do
  returns (if !e.apiKeyOptional then Server.verifyAPIKey e key else .ok ())
  let i ← returns ((e.directs.decode body).mapError fun _ => .invalidBody)
  Server.validateDirect e i
  deref i

/-- What a client that was let through has shown. -/
structure Admitted (e : External) (key body : Bytes) (i : DirectInstruction) : Prop where
  key : Authorized e key
  body : e.directs.decode body = .ok (some i)
  opType : e.isSystem i.opType = false

theorem authorized_iff {e : External} {key : Bytes} :
    (if !e.apiKeyOptional then Server.verifyAPIKey e key else .ok ()) = .ok () ↔ Authorized e key := by
  unfold Server.verifyAPIKey Authorized
  cases e.apiKeyOptional <;> simp

theorem validateDirect_ok_iff {e : External} {o : Option DirectInstruction} :
    Server.validateDirect e o = .ok () ↔ ∃ i, o = some i ∧ e.isSystem i.opType = false := by
  unfold Server.validateDirect
  cases o with
  | none => simp [deref, bind, Except.bind]
  | some i =>
    simp only [deref, Except.bind_ok_iff, Except.ite_throw_ok_iff, Except.ok.injEq, exists_eq_left', Option.some.injEq]
    simp [pure, Except.pure]

theorem instructionOf_ok_iff {e : External} {key body : Bytes} {i : DirectInstruction} :
    instructionOf e key body = .ok i ↔ Admitted e key body i := by
  unfold instructionOf
  simp only [Except.bind_ok_iff, GoPanic.returns_ok_iff, Except.mapError_ok_iff]
  constructor
  · rintro ⟨⟨⟩, hkey, _, hbody, ⟨⟩, hvalid, hderef⟩
    obtain ⟨i, rfl, htype⟩ := validateDirect_ok_iff.mp hvalid
    cases hderef
    exact ⟨authorized_iff.mp hkey, hbody, htype⟩
  · rintro ⟨hkey, hbody, htype⟩
    exact ⟨(), authorized_iff.mpr hkey, some i, hbody, (), validateDirect_ok_iff.mpr ⟨i, rfl, htype⟩, rfl⟩

/-- `directH` answers with the action of an instruction that was let through,
once it is enqueued, and not otherwise. -/
theorem directH_ok_iff {e : External} {key body answer : Bytes} :
    Server.directH e key body = .ok answer ↔ ∃ i a, instructionOf e key body = .ok i ∧
      Queue.directInstructionToAction e.randomHash (e.marshal (some i)) = .ok a ∧ e.enqueue a = .ok () ∧
      e.encodeAction a = .ok answer := by
  unfold Server.directH Server.acceptDirect
  simp only [Except.bind_ok_iff, GoPanic.returns_ok_iff, Except.mapError_ok_iff, instructionOf_ok_iff]
  constructor
  · rintro ⟨⟨⟩, hkey, _, hbody, ⟨⟩, hvalid, a, ha, ⟨⟩, henqueue, hanswer⟩
    obtain ⟨i, rfl, htype⟩ := validateDirect_ok_iff.mp hvalid
    exact ⟨i, a, ⟨authorized_iff.mp hkey, hbody, htype⟩, ha, henqueue, hanswer⟩
  · rintro ⟨i, a, ⟨hkey, hbody, htype⟩, ha, henqueue, hanswer⟩
    exact ⟨(), authorized_iff.mpr hkey, some i, hbody, (), validateDirect_ok_iff.mpr ⟨i, rfl, htype⟩, a, ha, (),
      henqueue, hanswer⟩

/-! ## Requests of the services -/

/-- What the services ask the node for. -/
inductive Request
  | teeInfo | keyInfo | keyProof | teeBackup | initializePolicy | updatePolicy | setMachinePathList
  deriving DecidableEq, Repr

/-- Backups have a queue of their own. -/
def Request.queue : Request → QueueID
  | .teeBackup => .backup
  | _ => .direct

/-- The operation type a service asks with. -/
def Request.opType : Request → OpType
  | .teeInfo | .keyInfo | .keyProof | .teeBackup => .get
  | .initializePolicy | .updatePolicy => .policy
  | .setMachinePathList => .governance

/-- The command a service asks with. -/
def Request.opCommand : Request → OpCommand
  | .teeInfo => .teeInfo
  | .keyInfo => .keyInfo
  | .keyProof => .keyProof
  | .teeBackup => .teeBackup
  | .initializePolicy => .initializePolicy
  | .updatePolicy => .updatePolicy
  | .setMachinePathList => .setMachinePathList

/-- The instruction of `PrepareDirectAction`. -/
def Request.instruction (op : OpPkg) (r : Request) (msg : Bytes) : DirectInstruction :=
  ⟨op.typeHash r.opType, op.commandHash r.opCommand, msg⟩

/-! ## The system -/

/-- A request of a client that was let through. -/
structure Post where
  key : Bytes
  body : Bytes
  instruction : DirectInstruction

/-- A request of a service. -/
structure Ask where
  request : Request
  msg : Bytes

/-- The votes and the queues, and the requests for direct actions so far. -/
structure State (cyc : CyclicPkg) where
  base : Authority.State cyc
  posts : List Post
  asks : List Ask

/-- A client posts to `/direct`; a service asks the node for something; anything
else that happens to the votes and the queues. -/
inductive Event
  | post (key body : Bytes) (id : Except PkgErr Hash) (ok : Bool)
  | ask (r : Request) (msg : Bytes) (id : Except PkgErr Hash) (ok : Bool)
  | rest (e : Authority.Event)

section System

variable (dep : Voting.Deps) (cyc : CyclicPkg) (cfg : Voting.Config) (node : NodePkg) (chainID : UInt64) (x : External)
  (j : Json) (instructions : Codec DirectInstruction)

/-- A post is refused or enqueued on the direct queue; a service's request goes
to its own queue. -/
def step (s : State cyc) : Event → Option (State cyc)
  | .post key body id ok => match instructionOf x key body with
    | .error _ => some s
    | .ok i =>
      (Authority.step dep cyc cfg node chainID x j s.base (.direct .direct id (instructions.marshal i) ok)).map
        fun base => { s with base, posts := s.posts ++ [⟨key, body, i⟩] }
  | .ask r msg id ok =>
    (Authority.step dep cyc cfg node chainID x j s.base
      (.direct r.queue id (instructions.marshal (r.instruction dep.op msg)) ok)).map
      fun base => { s with base, asks := s.asks ++ [⟨r, msg⟩] }
  | .rest (.direct _ _ _ _) => none
  | .rest e => (Authority.step dep cyc cfg node chainID x j s.base e).map fun base => { s with base }

/-- Nothing posted, nothing asked. -/
def start : State cyc := ⟨Authority.start cyc cfg, [], []⟩

/-- Clients and services beside the voting and the queues. -/
def system : Lts.System (State cyc) Event where
  init s := s = start cyc cfg
  step := step dep cyc cfg node chainID x j instructions

end System

/-! ## What a step does -/

section Inversion

variable {dep : Voting.Deps} {cyc : CyclicPkg} {cfg : Voting.Config} {node : NodePkg} {chainID : UInt64} {x : External}
  {j : Json} {instructions : Codec DirectInstruction} {s s' : State cyc} {e : Event}

/-- A client that was let through made the instruction. -/
def FromClient (x : External) (s : State cyc) (i : DirectInstruction) : Prop :=
  ∃ p ∈ s.posts, p.instruction = i ∧ Admitted x p.key p.body i

/-- A service made the instruction, for this queue. -/
def FromService (op : OpPkg) (s : State cyc) (q : QueueID) (i : DirectInstruction) : Prop :=
  ∃ a ∈ s.asks, a.request.queue = q ∧ a.request.instruction op a.msg = i

/-- A direct action holds the instruction, and nothing else. -/
def Carries (instructions : Codec DirectInstruction) (a : Action) (i : DirectInstruction) : Prop :=
  ∃ id dim, a = ⟨⟨id, .direct, .submit, dim⟩, [], [], [], []⟩ ∧ instructions.marshal i = .ok dim

/-- What a queue may be given. -/
def Given (op : OpPkg) (x : External) (instructions : Codec DirectInstruction) (s : State cyc) : QueueID → Action → Prop
  | .main, a => ∃ emission ∈ s.base.voting.out, emission.action = a
  | q, a => ∃ i, Carries instructions a i ∧ (q = .direct ∧ FromClient x s i ∨ FromService op s q i)

/-- What was given before may be given after. -/
structure Grows (s s' : State cyc) : Prop where
  out : s.base.voting.out ⊆ s'.base.voting.out
  posts : s.posts ⊆ s'.posts
  asks : s.asks ⊆ s'.asks

theorem Given.grows (hg : Grows s s') (q : QueueID) (a : Action) (h : Given dep.op x instructions s q a) :
    Given dep.op x instructions s' q a := by
  have hdirect : ∀ i, (q = .direct ∧ FromClient x s i ∨ FromService dep.op s q i) →
      (q = .direct ∧ FromClient x s' i ∨ FromService dep.op s' q i) := by
    rintro i (⟨hq, p, hp, hadm⟩ | ⟨k, hk, hmade⟩)
    · exact .inl ⟨hq, p, hg.posts hp, hadm⟩
    · exact .inr ⟨k, hg.asks hk, hmade⟩
  cases q with
  | main =>
    obtain ⟨emission, hmem, heq⟩ := h
    exact ⟨emission, hg.out hmem, heq⟩
  | _ =>
    obtain ⟨i, hcarries, hfrom⟩ := h
    exact ⟨i, hcarries, hdirect i hfrom⟩

/-- **Everything a step can do**: the requests and the votes grow, and a call on
a queue enqueues only what the queue may be given after it. -/
inductive Step (dep : Voting.Deps) (x : External) (j : Json) (instructions : Codec DirectInstruction)
    (s s' : State cyc) :
    Prop
  | kept : Grows s s' → s'.base.queues = s.base.queues → Step dep x j instructions s s'
  | called {f} : Grows s s' → Queue.sharedStep j s.base.queues f = some s'.base.queues →
      (∀ a ok, f.2 = .enqueue a ok → Given dep.op x instructions s' f.1 a) → Step dep x j instructions s s'

/-- A direct action is made and enqueued, or it cannot be made. -/
theorem direct_inv {b b' : Authority.State cyc} {q : QueueID} {id : Except PkgErr Hash} {dim : Except PkgErr Bytes}
    {ok : Bool} (h : Authority.step dep cyc cfg node chainID x j b (.direct q id dim ok) = some b') :
    b' = b ∨ q ≠ .main ∧ ∃ id' dim' queues, dim = .ok dim' ∧
      Queue.sharedStep j b.queues (q, .enqueue ⟨⟨id', .direct, .submit, dim'⟩, [], [], [], []⟩ ok) = some queues ∧
      b' = { b with queues } := by
  simp only [Authority.step] at h
  split at h
  · cases h
  next hmain =>
  split at h
  · cases h; exact .inl rfl
  next a hdirect =>
    obtain ⟨queues, hq, rfl⟩ := Option.map_eq_some_iff.mp h
    unfold Queue.directInstructionToAction at hdirect
    split at hdirect
    · cases hdirect
    split at hdirect
    · cases hdirect
    cases hdirect
    exact .inr ⟨hmain, _, _, queues, rfl, hq, rfl⟩

/-- Enqueueing an instruction from an allowed source, once it is on record. -/
theorem step_direct {b' : Authority.State cyc} {q : QueueID} {id : Except PkgErr Hash} {ok : Bool}
    {i : DirectInstruction}
    {posts : List Post} {asks : List Ask}
    (h : Authority.step dep cyc cfg node chainID x j s.base (.direct q id (instructions.marshal i) ok) = some b')
    (hposts : s.posts ⊆ posts) (hasks : s.asks ⊆ asks)
    (hfrom : q = .direct ∧ FromClient x ⟨b', posts, asks⟩ i ∨ FromService dep.op ⟨b', posts, asks⟩ q i) :
    Step dep x j instructions s ⟨b', posts, asks⟩ := by
  rcases direct_inv h with rfl | ⟨hq, id', dim, queues, hdim, hstep, rfl⟩
  · exact .kept ⟨List.Subset.refl _, hposts, hasks⟩ rfl
  · refine .called ⟨List.Subset.refl _, hposts, hasks⟩ hstep fun a ok heq => ?_
    cases heq
    have hcarries : Carries instructions ⟨⟨id', .direct, .submit, dim⟩, [], [], [], []⟩ i := ⟨id', dim, rfl, hdim⟩
    cases q with
    | main => exact absurd rfl hq
    | _ => exact ⟨i, hcarries, hfrom⟩

theorem step_rest {b' : Authority.State cyc} {f : Authority.Event} (hf : ∀ q id dim ok, f ≠ .direct q id dim ok)
    (h : Authority.step dep cyc cfg node chainID x j s.base f = some b') :
    Step dep x j instructions s { s with base := b' } := by
  have hvoting : ∀ {g v}, Voting.step dep cyc cfg s.base.voting g = some v →
      Grows s { s with base := { s.base with voting := v } } := fun hv =>
    ⟨Authority.out_step hv, List.Subset.refl _, List.Subset.refl _⟩
  cases f with
  | serve i ws =>
    simp only [Authority.step] at h
    split at h
    · cases h; exact .kept ⟨List.Subset.refl _, List.Subset.refl _, List.Subset.refl _⟩ rfl
    · obtain ⟨v, hv, rfl⟩ := Option.map_eq_some_iff.mp h
      exact .kept (hvoting hv) rfl
  | voting g =>
    cases g with
    | addVote => cases h
    | _ =>
      simp only [Authority.step] at h
      obtain ⟨v, hv, rfl⟩ := Option.map_eq_some_iff.mp h
      exact .kept (hvoting hv) rfl
  | forward ok =>
    simp only [Authority.step] at h
    split at h
    · cases h
    next emission hout =>
    split at h
    · obtain ⟨queues, hq, rfl⟩ := Option.map_eq_some_iff.mp h
      refine .called ⟨List.Subset.refl _, List.Subset.refl _, List.Subset.refl _⟩ hq fun a ok heq => ?_
      cases heq
      exact ⟨emission, List.mem_of_getElem? hout, rfl⟩
    · cases h
  | direct q id dim ok => exact absurd rfl (hf q id dim ok)
  | call q g =>
    cases g with
    | enqueue => cases h
    | _ =>
      simp only [Authority.step] at h
      obtain ⟨queues, hq, rfl⟩ := Option.map_eq_some_iff.mp h
      exact .called ⟨List.Subset.refl _, List.Subset.refl _, List.Subset.refl _⟩ hq fun a ok heq => by cases heq

theorem step_inv (h : step dep cyc cfg node chainID x j instructions s e = some s') :
    Step dep x j instructions s s' := by
  cases e with
  | post key body id ok =>
    simp only [step] at h
    split at h
    · cases h; exact .kept ⟨List.Subset.refl _, List.Subset.refl _, List.Subset.refl _⟩ rfl
    next i hinstruction =>
      obtain ⟨b', hb, rfl⟩ := Option.map_eq_some_iff.mp h
      refine step_direct hb (List.subset_append_left _ _) (List.Subset.refl _) (.inl ⟨rfl, ?_⟩)
      exact ⟨_, List.mem_append_right _ (List.mem_singleton_self _), rfl, instructionOf_ok_iff.mp hinstruction⟩
  | ask r msg id ok =>
    simp only [step] at h
    obtain ⟨b', hb, rfl⟩ := Option.map_eq_some_iff.mp h
    refine step_direct hb (List.Subset.refl _) (List.subset_append_left _ _) (.inr ?_)
    exact ⟨_, List.mem_append_right _ (List.mem_singleton_self _), rfl, rfl⟩
  | rest f =>
    cases f with
    | direct => cases h
    | _ =>
      simp only [step] at h
      obtain ⟨b', hb, rfl⟩ := Option.map_eq_some_iff.mp h
      exact step_rest (fun q id dim ok heq => by cases heq) hb

theorem base_step (h : step dep cyc cfg node chainID x j instructions s e = some s') :
    s'.base = s.base ∨ ∃ f, Authority.step dep cyc cfg node chainID x j s.base f = some s'.base := by
  cases e with
  | post key body id ok =>
    simp only [step] at h
    split at h
    · cases h; exact .inl rfl
    · obtain ⟨b', hb, rfl⟩ := Option.map_eq_some_iff.mp h
      exact .inr ⟨_, hb⟩
  | ask r msg id ok =>
    obtain ⟨b', hb, rfl⟩ := Option.map_eq_some_iff.mp h
    exact .inr ⟨_, hb⟩
  | rest f =>
    cases f with
    | direct => cases h
    | _ =>
      obtain ⟨b', hb, rfl⟩ := Option.map_eq_some_iff.mp h
      exact .inr ⟨_, hb⟩

end Inversion

/-! ## Every delivery of every run -/

section Runs

variable {dep : Voting.Deps} {cyc : CyclicPkg} {cfg : Voting.Config} {node : NodePkg} {chainID : UInt64} {x : External}
  {j : Json} {instructions : Codec DirectInstruction} {s : State cyc} {ok : State cyc → Event → Prop}

theorem base_reach (h : Lts.Reach (system dep cyc cfg node chainID x j instructions) ok s) :
    Lts.Reach (Authority.system dep cyc cfg node chainID x j) Lts.Free s.base := by
  refine h.simulation State.base ?_ fun s e s' _ _ _ hs => (base_step hs).imp id fun ⟨f, hf⟩ => ⟨f, trivial, hf⟩
  rintro s rfl
  rfl

/-- The tags of a box's actions are not those of direct ones. -/
theorem tag_of_action {box : Voting.VoteBox} {a : Action}
    (h : box.action dep .threshold = .ok a ∨ box.action dep .end = .ok a) : a.data.submissionTag ≠ .submit := by
  rcases h with h | h
  · rw [Voting.VoteBox.action_tag h]; decide
  · rw [Voting.VoteBox.action_tag h]; decide

/-- No action of the voting storage is tagged as a direct one. -/
theorem out_tag {v : Voting.State cyc} {okv : Voting.State cyc → Voting.Event → Prop}
    (h : Lts.Reach (Voting.system dep cyc cfg) okv v) :
    (∀ y ∈ v.senders, ∀ a ∈ y.actions, a.data.submissionTag ≠ .submit) ∧
      ∀ y ∈ v.out, y.action.data.submissionTag ≠ .submit := by
  refine h.invariant (fun v => (∀ y ∈ v.senders, ∀ a ∈ y.actions, a.data.submissionTag ≠ .submit) ∧
    ∀ y ∈ v.out, y.action.data.submissionTag ≠ .submit) ?_ ?_
  · rintro v rfl
    exact ⟨fun y hy => (List.not_mem_nil hy).elim, fun y hy => (List.not_mem_nil hy).elim⟩
  · intro v e v' _ ⟨hsenders, hout⟩ _ hs
    cases Voting.step_inv hs with
    | known | stored | turnedAway | entered | refused => exact ⟨hsenders, hout⟩
    | @voted n clock c r r' r'' voted storage hn hr hcast =>
      refine ⟨fun y hy a ha => ?_, hout⟩
      rcases List.mem_append.mp hy with hy | hy
      · exact hsenders y hy a ha
      obtain rfl := List.mem_singleton.mp hy
      obtain ⟨box, box', hv⟩ := Voting.Round.castVote_ok hcast
      have ha' : voted.actionToSend = some a := Option.mem_toList.mp ha
      rw [hv.action] at ha'
      split at ha'
      · exact tag_of_action (.inl (Except.toOption_eq_some_iff.mp ha'))
      · cases ha'
    | ended =>
      refine ⟨fun y hy a ha => ?_, hout⟩
      rcases List.mem_append.mp hy with hy | hy
      · exact hsenders y hy a ha
      obtain rfl := List.mem_singleton.mp hy
      exact tag_of_action (Voting.VoteBox.tag_endActions ha)
    | @sent n key a actions hn =>
      have hold := hsenders _ (List.mem_of_getElem? hn)
      refine ⟨fun y hy b hb => ?_, fun y hy => ?_⟩
      · rcases List.mem_or_eq_of_mem_set hy with hy | rfl
        · exact hsenders y hy b hb
        · exact hold b (List.mem_cons_of_mem _ hb)
      · rcases List.mem_append.mp hy with hy | hy
        · exact hout y hy
        · obtain rfl := List.mem_singleton.mp hy
          exact hold a List.mem_cons_self
    | cancelled hn =>
      refine ⟨fun y hy a ha => ?_, hout⟩
      rcases List.mem_or_eq_of_mem_set hy with hy | rfl
      · exact hsenders y hy a ha
      · cases ha

theorem sourced (h : Lts.Reach (system dep cyc cfg node chainID x j instructions) ok s) :
    Queue.SharedSourced j (Given dep.op x instructions s) s.base.queues := by
  refine h.invariant (fun s => Queue.SharedSourced j (Given dep.op x instructions s) s.base.queues) ?_ ?_
  · rintro s rfl
    exact .start
  · intro s e s' _ ih _ hs
    cases step_inv hs with
    | kept hg heq =>
      rw [heq]
      exact ih.mono (Given.grows hg)
    | called hg hq hadm => exact (ih.mono (Given.grows hg)).step hadm hq

/-- **Direct actions come from the services, or from clients with the key.** In
every run, what the direct and the backup queue hand out is a direct action
that holds an instruction, which one of the services made, or which a client
posted that gave the API key where one is needed, and then its operation type
is not a system one. The action it was queued as is from a client only on the
direct queue. -/
theorem direct_authorised (h : Lts.Reach (system dep cyc cfg node chainID x j instructions) Lts.Free s) {q : QueueID}
    (hq : q ≠ .main) {d : Queue.Delivery × Action} (hd : d ∈ (s.base.queues.queue q).handed) :
    (∃ i, Carries instructions d.1.action i ∧ instructions.unmarshal d.1.action.data.message = .ok i ∧
      (FromClient x s i ∨ ∃ q', FromService dep.op s q' i)) ∧
    ∃ i, Carries instructions d.2 i ∧ (q = .direct ∧ FromClient x s i ∨ FromService dep.op s q i) := by
  obtain ⟨horigin, hpair, q', hq'⟩ := ((sourced h).queues q).handed d hd
  have htag : d.1.action.data.submissionTag = d.2.data.submissionTag := congrArg Prod.snd hpair
  have hdirect : ∀ p a, p ≠ .main → Given dep.op x instructions s p a →
      ∃ i, Carries instructions a i ∧ (p = .direct ∧ FromClient x s i ∨ FromService dep.op s p i) := by
    intro p a hp ha
    cases p with
    | main => exact absurd rfl hp
    | _ => exact ha
  have hqueued := hdirect q d.2 hq horigin
  -- a body of the main queue has another tag
  have hmain : q' ≠ .main := by
    rintro rfl
    obtain ⟨emission, hmem, heq⟩ := hq'
    obtain ⟨i, ⟨id, dim, hd2, -⟩, -⟩ := hqueued
    refine (out_tag (Authority.voting_reach (base_reach h))).2 emission hmem ?_
    rw [heq, htag, hd2]
  obtain ⟨i, ⟨id, dim, heq, hdim⟩, hfrom⟩ := hdirect q' _ hmain hq'
  refine ⟨⟨i, ⟨id, dim, heq, hdim⟩, ?_, hfrom.imp And.right fun hmade => ⟨q', hmade⟩⟩, hqueued⟩
  rw [heq]
  exact instructions.unmarshal_marshal _ _ hdim

end Runs

/-! ## A run -/

deriving instance DecidableEq for DirectInstruction

/-- An instruction of a client, and one that asks for the TEE's info. -/
def clientInstruction : DirectInstruction := ⟨50, 0, [5]⟩

/-- The instruction of a TEE_INFO request. -/
def infoInstruction : DirectInstruction := Request.teeInfo.instruction .numbered [6]

/-- A server that needs the API key 1, to which clients post one instruction. -/
def keyedExternal : External :=
  { Server.plainExternal with
    apiKeyOptional := false
    apiKey := [1]
    directs := .const clientInstruction
    isSystem := fun t => t ≠ 50 }

/-- What a client posted, as an action. -/
def clientAction : Action := ⟨⟨8, .direct, .submit, [0]⟩, [], [], [], []⟩

/-- The TEE_INFO request as an action. -/
def infoAction : Action := ⟨⟨9, .direct, .submit, [1]⟩, [], [], [], []⟩

/-- A client without the key and one with it, a request for the TEE's info, and
two polls. -/
def postedAndAsked : List Event :=
  [.post [2] [0x7b] (.ok 7) true, .post [1] [0x7b] (.ok 8) true, .ask .teeInfo [6] (.ok 9) true,
    .rest (.call .direct (.push 0 true)), .rest (.call .direct (.push 0 true)),
    .rest (.call .direct (.dequeue false true)), .rest (.call .direct (.fetch 0 true)),
    .rest (.call .direct (.dequeue false true)), .rest (.call .direct (.fetch 0 true))]

theorem direct_authorised_postedAndAsked :
    ∃ s : State .slots,
      (s.base.queues.queue .direct).handed.map (·.1.action) = [clientAction, infoAction] ∧
      s.posts.map (·.key) = [[1]] ∧
      ∃ i, Carries (.ofTable [clientInstruction, infoInstruction]) clientAction i ∧
        (FromClient keyedExternal s i ∨ ∃ q', FromService .numbered s q' i) := by
  have hrun : ((system Voting.plainDeps .slots Voting.plainConfig .blank 0 keyedExternal
      (.ofTable [clientAction, infoAction]) (.ofTable [clientInstruction, infoInstruction])).run
        (start .slots Voting.plainConfig) postedAndAsked).any fun s =>
          decide ((s.base.queues.queue .direct).handed.map (·.1.action) = [clientAction, infoAction] ∧
            s.posts.map (·.key) = [[1]]) := by
    decide +kernel
  obtain ⟨s, hs, hend⟩ := (Option.any_eq_true _ _).mp hrun
  obtain ⟨hhanded, hposts⟩ := of_decide_eq_true hend
  have hreach : Lts.Reach (system Voting.plainDeps .slots Voting.plainConfig .blank 0 keyedExternal
      (.ofTable [clientAction, infoAction]) (.ofTable [clientInstruction, infoInstruction])) Lts.Free s :=
    .of_run (.init rfl) (fun _ _ _ => trivial) hs
  obtain ⟨d, hd, heq⟩ : ∃ d ∈ (s.base.queues.queue .direct).handed, d.1.action = clientAction :=
    List.mem_map.mp (hhanded ▸ List.mem_cons_self)
  obtain ⟨⟨i, hcarries, -, hfrom⟩, -⟩ := direct_authorised hreach (by decide) hd
  exact ⟨s, hhanded, hposts, i, heq ▸ hcarries, hfrom⟩

end TeeProxy.Direct
