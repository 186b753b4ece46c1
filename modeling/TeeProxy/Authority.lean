/-
From the voters to the node: `Service.ServeInstruction`, the voting storage,
`Service.Forward` and the three queues in one Redis, as one system.

A voter's request goes through the checks of `ServeInstruction`, and its signer
is the one its signature recovers to. The voting storage sends what its boxes
finalize, and `Forward` alone enqueues on the main queue. All other actions of
the proxy are direct ones, made by `DirectInstructionToAction` and enqueued on
the direct and the backup queue. Any call to Redis may fail, any body may be
replaced, and the polls of the node commit and restore as they like.

Whatever happens, a node is given an instruction only if it was voted for
(`delivered_authorised`): what the main queue hands out has the votes of
distinct signers behind it, with the weight and the cosigners that the terms of
its box ask for, and no other queue hands out an instruction.
-/
import TeeProxy.Queue.Provenance
import TeeProxy.Server.Requests
import TeeProxy.Voting.Authorised

namespace TeeProxy.Authority

open Queue (Json Shared QueueID)
open Server (External Instruction)
open Voting (CyclicPkg Authorised Call votesOf)

/-! ## The checks of a request -/

/-- `ServeInstruction` up to the call of `AddVote`: who signed. -/
def signerOf (e : External) (i : Instruction) : Except Server.Err Address :=
  if i.data.teeID ≠ e.teeID then .error .wrongTeeID
  else if !e.isValidPair i.data.opType i.data.opCommand then .error .invalidOP
  else (e.recoverSigner i).mapError fun _ => .invalidSignature

/-- `ServeInstruction` returns the receipt of an `AddVote` for the signer that
`signerOf` finds, and nothing else. -/
theorem serveInstruction_ok_iff {e : External} {i : Instruction} {receipt : Voting.Receipt} :
    Server.serveInstruction e (some i) = .ok receipt ↔
      ∃ signer, signerOf e i = .ok signer ∧ e.addVote i.data signer i.signature = .ok receipt := by
  simp only [Server.serveInstruction, signerOf, GoPanic.deref, Except.bind_ok_iff, GoPanic.returns_ok_iff,
    Except.mapError_ok_iff, Except.ite_throw_ok_iff, Except.ok.injEq, exists_eq_left']
  constructor
  · rintro ⟨htee, hpair, signer, hrec, hvote⟩
    exact ⟨signer, by rw [if_neg htee, if_neg hpair, hrec]; rfl, hvote⟩
  · rintro ⟨signer, hsigner, hvote⟩
    split at hsigner
    · cases hsigner
    next htee =>
    split at hsigner
    · cases hsigner
    next hpair => exact ⟨htee, hpair, signer, Except.mapError_ok_iff.mp hsigner, hvote⟩

/-- A call whose request passed the checks. -/
structure Admitted (e : External) (call : Call) : Prop where
  teeID : call.data.teeID = e.teeID
  pair : e.isValidPair call.data.opType call.data.opCommand = true
  signer : e.recoverSigner ⟨call.data, call.signature⟩ = .ok call.signer

theorem signerOf_ok {e : External} {i : Instruction} {signer : Address} (h : signerOf e i = .ok signer) (m : Meta) :
    Admitted e ⟨i.data, signer, i.signature, m⟩ := by
  unfold signerOf at h
  split at h
  · cases h
  next htee =>
  split at h
  · cases h
  next hpair => exact ⟨not_not.mp htee, by simpa using hpair, Except.mapError_ok_iff.mp h⟩

/-! ## The system -/

/-- The voting storage, how many of its actions `Forward` has received, and the
queues. -/
structure State (cyc : CyclicPkg) where
  voting : Voting.State cyc
  forwarded : Nat
  queues : Shared

/-- A request is served at some state of the wallet cache; the voting storage
takes another step; `Forward` receives an action and stores its body; a direct
action is made and enqueued; any other step of a call on a queue. -/
inductive Event
  | serve (i : Instruction) (ws : Wallets.Cache)
  | voting (e : Voting.Event)
  | forward (ok : Bool)
  | direct (q : QueueID) (id : Except PkgErr Hash) (dim : Except PkgErr Bytes) (ok : Bool)
  | call (q : QueueID) (e : Queue.Event)

section System

variable (dep : Voting.Deps) (cyc : CyclicPkg) (cfg : Voting.Config) (node : NodePkg) (chainID : UInt64) (x : External)
  (j : Json)

/-- A request that is refused changes nothing. What the storage sent is
forwarded in order to the main queue, which takes no direct action. -/
def step (s : State cyc) : Event → Option (State cyc)
  | .serve i ws => match signerOf x i with
    | .error _ => some s
    | .ok signer =>
      (Voting.step dep cyc cfg s.voting (.addVote ⟨i.data, signer, i.signature, .new dep.op node ws chainID⟩)).map
        fun voting => { s with voting }
  -- requests alone call `AddVote`
  | .voting (.addVote _) => none
  | .voting e => (Voting.step dep cyc cfg s.voting e).map fun voting => { s with voting }
  | .forward ok => match s.voting.out[s.forwarded]? with
    | none => none
    | some emission =>
      -- the last `Enqueue` of `Forward` has returned
      if (s.queues.queue .main).pushing.isEmpty then
        (Queue.sharedStep j s.queues (.main, .enqueue emission.action ok)).map fun queues =>
          { s with forwarded := s.forwarded + 1, queues }
      else none
  | .direct q id dim ok =>
    if q = .main then none
    else match Queue.directInstructionToAction id dim with
      | .error _ => some s
      | .ok a => (Queue.sharedStep j s.queues (q, .enqueue a ok)).map fun queues => { s with queues }
  | .call _ (.enqueue _ _) => none
  | .call q e => (Queue.sharedStep j s.queues (q, e)).map fun queues => { s with queues }

/-- No round, nothing forwarded, empty queues. -/
def start : State cyc := ⟨Voting.start cyc cfg, 0, .start⟩

/-- The server, the voting storage, the forwarder and the queues together. -/
def system : Lts.System (State cyc) Event where
  init s := s = start cyc cfg
  step := step dep cyc cfg node chainID x j

end System

/-! ## What a step does -/

section Inversion

variable {dep : Voting.Deps} {cyc : CyclicPkg} {cfg : Voting.Config} {node : NodePkg} {chainID : UInt64} {x : External}
  {j : Json} {s s' : State cyc} {e : Event}

/-- What the voting storage sees: calls that were admitted, with the metadata of
`meta.New`. -/
def Entry (dep : Voting.Deps) (node : NodePkg) (chainID : UInt64) (x : External) :
    Voting.State cyc → Voting.Event → Prop
  | _, .addVote call => Admitted x call ∧ ∃ ws, call.metadata = .new dep.op node ws chainID
  | _, _ => True

/-- What a queue may be given. -/
def Given (out : List Voting.Emission) : QueueID → Action → Prop
  | .main, a => ∃ emission ∈ out, emission.action = a
  | _, a => a.data.type = .direct ∧ a.data.submissionTag = .submit

/-- Everything a step can do: nothing, a step of the storage, with a vote only
for a request, or one of the queues with what they were given. -/
inductive Step (dep : Voting.Deps) (cfg : Voting.Config) (node : NodePkg) (chainID : UInt64) (x : External) (j : Json)
    (s : State cyc) : State cyc → Prop
  | refused : Step dep cfg node chainID x j s s
  | voting {e voting} : Voting.step dep cyc cfg s.voting e = some voting → Entry dep node chainID x s.voting e →
      Step dep cfg node chainID x j s { s with voting }
  | queues {e n queues} : Queue.sharedStep j s.queues e = some queues →
      (∀ a ok, e.2 = .enqueue a ok → Given s.voting.out e.1 a) →
      Step dep cfg node chainID x j s { s with forwarded := n, queues }

theorem step_inv (h : step dep cyc cfg node chainID x j s e = some s') : Step dep cfg node chainID x j s s' := by
  cases e with
  | serve i ws =>
    simp only [step] at h
    split at h
    · cases h; exact .refused
    next signer hsigner =>
      obtain ⟨voting, hv, rfl⟩ := Option.map_eq_some_iff.mp h
      exact .voting hv ⟨signerOf_ok hsigner _, ws, rfl⟩
  | voting e =>
    cases e with
    | addVote => cases h
    | _ =>
      simp only [step] at h
      obtain ⟨voting, hv, rfl⟩ := Option.map_eq_some_iff.mp h
      exact .voting hv trivial
  | forward ok =>
    simp only [step] at h
    split at h
    · cases h
    next emission hout =>
    split at h
    · obtain ⟨queues, hq, rfl⟩ := Option.map_eq_some_iff.mp h
      refine .queues hq fun a ok heq => ?_
      cases heq
      exact ⟨emission, List.mem_of_getElem? hout, rfl⟩
    · cases h
  | direct q id dim ok =>
    simp only [step] at h
    split at h
    · cases h
    next hmain =>
    split at h
    · cases h; exact .refused
    next a hdirect =>
      obtain ⟨queues, hq, rfl⟩ := Option.map_eq_some_iff.mp h
      refine .queues hq fun b ok heq => ?_
      cases heq
      have hgiven : a.data.type = .direct ∧ a.data.submissionTag = .submit := by
        unfold Queue.directInstructionToAction at hdirect
        split at hdirect
        · cases hdirect
        split at hdirect <;> cases hdirect
        exact ⟨rfl, rfl⟩
      cases q with
      | main => exact absurd rfl hmain
      | _ => exact hgiven
  | call q e =>
    cases e with
    | enqueue => cases h
    | _ =>
      simp only [step] at h
      obtain ⟨queues, hq, rfl⟩ := Option.map_eq_some_iff.mp h
      exact .queues hq fun a ok heq => by cases heq

end Inversion

/-! ## Every delivery of every run -/

section Runs

variable {dep : Voting.Deps} {cyc : CyclicPkg} {cfg : Voting.Config} {node : NodePkg} {chainID : UInt64} {x : External}
  {j : Json} {s : State cyc} {ok : State cyc → Event → Prop}

theorem voting_reach (h : Lts.Reach (system dep cyc cfg node chainID x j) ok s) :
    Lts.Reach (Voting.system dep cyc cfg) (Entry dep node chainID x) s.voting := by
  refine h.simulation State.voting ?_ ?_
  · rintro s rfl; rfl
  · intro s e s' _ _ _ hs
    cases step_inv hs with
    | refused => exact .inl rfl
    | voting hv hentry => exact .inr ⟨_, hentry, hv⟩
    | queues => exact .inl rfl

theorem out_step {v v' : Voting.State cyc} {e : Voting.Event} (hs : Voting.step dep cyc cfg v e = some v') :
    v.out ⊆ v'.out := by
  cases Voting.step_inv hs with
  | sent => exact List.subset_append_left _ _
  | _ => exact List.Subset.refl _

theorem sourced (h : Lts.Reach (system dep cyc cfg node chainID x j) ok s) :
    Queue.SharedSourced j (Given s.voting.out) s.queues := by
  refine h.invariant (fun s => Queue.SharedSourced j (Given s.voting.out) s.queues) ?_ ?_
  · rintro s rfl
    exact .start
  · intro s e s' _ ih _ hs
    cases step_inv hs with
    | refused => exact ih
    | voting hv =>
      refine ih.mono fun q a ha => ?_
      cases q with
      | main =>
        obtain ⟨emission, hmem, heq⟩ := ha
        exact ⟨emission, out_step hv hmem, heq⟩
      | _ => exact ha
    | queues hq hadm => exact ih.step hadm hq

theorem wired_of_entry (v : Voting.State cyc) (e : Voting.Event) (h : Entry dep node chainID x v e) :
    Voting.Wired dep cyc node chainID v e := by
  cases e with
  | addVote call => exact h.2
  | _ => trivial

/-- An action of the storage is an instruction, and its tag is no direct
action's. -/
theorem authorised_data {Q : Call → Prop} {policy : SigningPolicy} {k : Voting.Key} {history : List Voting.Accepted}
    {call : Call} {box : Voting.VoteBox} {a : Action} (h : Authorised dep cfg Q policy k history call box a) :
    a.data.type = .instruction ∧ a.data.submissionTag ≠ .submit := by
  rcases h.action with rfl | rfl
  · exact ⟨rfl, by change "threshold" ≠ "submit"; decide⟩
  · exact ⟨rfl, by change "end" ≠ "submit"; decide⟩

/-- **A node is given an instruction only if it was voted for.** In every run,
whatever requests, votes, expirations, failures, replaced bodies and
redeliveries it has, under policies whose weights fit a uint16, the main queue
and no other hands out instructions; and each instruction handed out is the
action of votes that were recorded: of requests that named this TEE and a valid
operation, on one hash and for the epoch of one policy, by distinct signers that
their signatures recover to, who are voters of the policy or cosigners of the
instruction, with a weight above the threshold and as many cosigners as the
terms of the box ask for. -/
theorem delivered_authorised (h : Lts.Reach (system dep cyc cfg node chainID x j) Lts.Free s)
    (hsum : ∀ r ∈ s.voting.storage.rounds, r.policy.weightSum ≤ 65535) {q : QueueID} {d : Queue.Delivery × Action}
    (hd : d ∈ (s.queues.queue q).handed) :
    (q = .main ↔ d.1.action.data.type = .instruction) ∧
    (q = .main → ∃ k r history call box, s.voting.storage.rounds[k.round]? = some r ∧
      history <+: votesOf s.voting.accepted k ∧
      Authorised dep cfg (Admitted x) r.policy k history call box d.1.action) := by
  have hout := (Voting.authorised_of_reach (Q := Admitted x) (fun _ _ he => he.1) wired_of_entry (voting_reach h)).2
  have hmain : ∀ a, Given s.voting.out .main a → ∃ k r history call box, s.voting.storage.rounds[k.round]? = some r ∧
      history <+: votesOf s.voting.accepted k ∧ Authorised dep cfg (Admitted x) r.policy k history call box a := by
    rintro a ⟨emission, hmem, rfl⟩
    obtain ⟨r, history, call, box, hr, hpre, hauth⟩ := hout emission hmem
    exact ⟨_, r, history, call, box, hr, hpre, hauth (hsum r (List.mem_of_getElem? hr))⟩
  obtain ⟨horigin, hpair, q', hq'⟩ := ((sourced h).queues q).handed d hd
  have htag : d.1.action.data.submissionTag = d.2.data.submissionTag := congrArg Prod.snd hpair
  -- the tag of a delivery tells the main queue from the others
  have hsubmit : ∀ p a, p ≠ .main → Given s.voting.out p a →
      a.data.type = .direct ∧ a.data.submissionTag = .submit := by
    intro p a hp ha
    cases p with
    | main => exact absurd rfl hp
    | _ => exact ha
  by_cases hq : q = .main
  · subst hq
    obtain ⟨k, r, history, call, box, -, -, hauth⟩ := hmain d.2 horigin
    have hmainq' : q' = .main := by
      by_contra hne
      exact (authorised_data hauth).2 (htag.symm.trans (hsubmit q' _ hne hq').2)
    subst hmainq'
    obtain ⟨k, r, history, call, box, hr, hpre, hauth⟩ := hmain _ hq'
    exact ⟨⟨fun _ => (authorised_data hauth).1, fun _ => rfl⟩, fun _ => ⟨k, r, history, call, box, hr, hpre, hauth⟩⟩
  · have hdirect := (hsubmit q _ hq horigin).2
    have hne : q' ≠ .main := by
      rintro rfl
      obtain ⟨k, r, history, call, box, -, -, hauth⟩ := hmain _ hq'
      exact (authorised_data hauth).2 (htag.trans hdirect)
    refine ⟨⟨fun heq => absurd heq hq, fun htype => ?_⟩, fun heq => absurd heq hq⟩
    rw [(hsubmit q' _ hne hq').1] at htype
    cases htype

end Runs

/-! ## A run -/

/-- A signature names its signer. -/
def signedExternal : External :=
  { Server.plainExternal with recoverSigner := fun i => .ok (.ofNat 160 (i.signature.headD 0).toNat) }

/-- The action the two votes give, and a direct action. -/
def votedAction : Action := ⟨⟨1, .instruction, .threshold, [5]⟩, [[1], [2]], [[], []], [100, 101], []⟩

/-- A direct action with the message 3. -/
def directAction : Action := ⟨⟨9, .direct, .submit, [3]⟩, [], [], [], []⟩

/-- Two voters vote, the action is forwarded while a direct one is enqueued, and
the node polls both queues. -/
def votedAndPolled : List Event :=
  [.voting (.storeNewRound (Voting.twoVoters 7)), .serve ⟨(Voting.plainCall 7 1 5 1 []).data, [1]⟩ .empty,
    .serve ⟨(Voting.plainCall 7 1 5 2 []).data, [2]⟩ .empty, .voting (.castVote 0 (Voting.clockAt 100)),
    .voting (.castVote 0 (Voting.clockAt 101)), .voting (.send 1), .forward true,
    .direct .direct (.ok 9) (.ok [3]) true,
    .call .main (.push 0 true), .call .direct (.push 0 true), .call .main (.dequeue false true),
    .call .direct (.dequeue false true), .call .main (.fetch 0 true), .call .direct (.fetch 0 true)]

theorem delivered_authorised_votedAndPolled :
    ∃ s : State .slots,
      (s.queues.queue .main).handed.map (·.1.action) = [votedAction] ∧
      (s.queues.queue .direct).handed.map (·.1.action) = [directAction] ∧
      ∃ k r history call box, s.voting.storage.rounds[k.round]? = some r ∧ history <+: votesOf s.voting.accepted k ∧
        Authorised Voting.plainDeps Voting.plainConfig (Admitted signedExternal) r.policy k history call box
          votedAction := by
  have hrun : ((system Voting.plainDeps .slots Voting.plainConfig .blank 0 signedExternal
      (.ofTable [votedAction, directAction])).run (start .slots Voting.plainConfig) votedAndPolled).any fun s =>
        decide ((s.queues.queue .main).handed.map (·.1.action) = [votedAction] ∧
          (s.queues.queue .direct).handed.map (·.1.action) = [directAction] ∧
          ∀ r ∈ s.voting.storage.rounds, r.policy.weightSum ≤ 65535) := by
    decide +kernel
  obtain ⟨s, hs, hend⟩ := (Option.any_eq_true _ _).mp hrun
  obtain ⟨hmain, hdirect, hsum⟩ := of_decide_eq_true hend
  have hreach : Lts.Reach (system Voting.plainDeps .slots Voting.plainConfig .blank 0 signedExternal
      (.ofTable [votedAction, directAction])) Lts.Free s := .of_run (.init rfl) (fun _ _ _ => trivial) hs
  obtain ⟨d, hd, heq⟩ : ∃ d ∈ (s.queues.queue .main).handed, d.1.action = votedAction :=
    List.mem_map.mp (hmain ▸ List.mem_singleton_self _)
  refine ⟨s, hmain, hdirect, ?_⟩
  rw [← heq]
  exact (delivered_authorised hreach hsum hd).2 rfl

end TeeProxy.Authority
