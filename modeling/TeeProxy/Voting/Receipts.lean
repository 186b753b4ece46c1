/-
Receipts, the vote-hash chain and the actions of a box agree.

A box keeps its votes in a map by signer, each with a number taken from the
map's size, and the running vote hash in another field. A client holds the
receipt of its vote, the node gets the votes back as the lists of an action.
`poll` is one box from `buildVoteBox` on, taking votes until it ends, with
the receipts it gave; every box the storage holds is in a state of such a
run, and the receipts `AddVote` returns are those of the run
(`polls_of_reach`).
-/
import TeeProxy.Lib.HashChain
import TeeProxy.Voting.Emission

namespace TeeProxy.Voting

open GoTime (Time)

/-! ## What a vote returns -/

section Receipt

variable {dep : Deps} {vb vb' : VoteBox} {signer : Address} {weight : UInt16} {signature avm : Bytes}
  {voterGroup : VoterGroup} {now : Time}

theorem VoteBox.addVote_receipt {receipt : Receipt} {reached : Bool}
    (h : vb.addVote dep signer weight signature avm voterGroup now = (vb', .ok (receipt, reached))) :
    dep.instruction.nextVoteHash vb.voteHash vb.votes.size signature avm now.unixU64 = (vb'.voteHash, none) ∧
      receipt = ⟨vb.iHash, vb.votes.size, signature, dep.instruction.keccak256Hash avm, now.unixU64, vb'.voteHash⟩ := by
  unfold VoteBox.addVote at h
  split at h
  · cases h
  split at h
  · cases h
  split at h
  · cases h
  dsimp only at h
  split at h
  · cases h
  next voteHash hnext =>
  split at h <;>
    · simp only [Prod.mk.injEq, Except.ok.injEq] at h
      obtain ⟨rfl, rfl, -⟩ := h
      exact ⟨hnext, rfl⟩

/-- A refused vote leaves no trace where `NextVoteHash` succeeds. -/
theorem VoteBox.addVote_error_of_next {e : VoteErr}
    (hnext : ∀ h i s m t, (dep.instruction.nextVoteHash h i s m t).2 = none)
    (h : vb.addVote dep signer weight signature avm voterGroup now = (vb', .error e)) : vb' = vb := by
  unfold VoteBox.addVote at h
  split at h
  · exact (Prod.mk.inj h).1.symm
  split at h
  · exact (Prod.mk.inj h).1.symm
  split at h
  · exact (Prod.mk.inj h).1.symm
  dsimp only at h
  split at h
  next voteHash err hfail =>
    have := hnext vb.voteHash (vb.nextVote now signature avm).sequence signature avm now.unixU64
    rw [hfail] at this
    cases this
  next => split at h <;> cases h

theorem buildVoteBox_initial {cfg : Config} {policy : SigningPolicy} {call : Call}
    (h : buildVoteBox dep cfg policy call now = .ok vb) :
    dep.instruction.initialVoteHash call.data.toDataFixed = .ok vb.voteHash := by
  obtain ⟨t, threshold, cosigners, ct, -, -, -, -, hb⟩ := buildVoteBox_ok_iff.mp h
  obtain ⟨voteHash, iHash, hi, -, rfl⟩ := newVoteBox_ok_iff.mp hb
  exact hi

end Receipt

/-! ## One box -/

/-- A vote that was taken, and its receipt. -/
structure Taken where
  vote : Accepted
  receipt : Receipt

/-- A box and the votes it has taken, in order. -/
structure Poll where
  box : VoteBox
  taken : List Taken

/-- A vote, under the policy of its round. -/
structure Attempt where
  policy : SigningPolicy
  call : Call
  clock : Clock

/-- What a vote adds to the chain: its signature, additional variable message
and unix time. -/
abbrev Entry := Bytes × Bytes × UInt64

/-- A vote as an entry of an action. -/
def Taken.entry (t : Taken) : Entry :=
  (t.vote.call.signature, t.vote.call.data.additionalVariableMessage, t.vote.time.unixU64)

/-- The votes an action lists. -/
def entriesOf (a : Action) : List Entry := a.signatures.zip (a.additionalVariableMessages.zip a.timestamps)

section Poll

variable (dep : Deps) (cfg : Config) (k : Key)

/-- `NextVoteHash` folded over votes. -/
def voteChain (h : Hash) (entries : List Entry) : Hash :=
  HashChain.digest (fun h i (e : Entry) => (dep.instruction.nextVoteHash h i e.1 e.2.1 e.2.2).1) h entries

/-- A vote on the box of key `k`. -/
def Poll.step (p : Poll) (b : Attempt) : Option Poll :=
  match castOn dep b.policy b.call b.clock p.box with
  | (box, .error _) => some { p with box }
  | (box, .ok (receipt, reached)) =>
    some ⟨box, p.taken ++ [⟨⟨k.round, k.hash, b.call, b.clock.vote, reached⟩, receipt⟩]⟩

/-- The life of one box, until it ends. -/
def poll : Lts.System Poll Attempt where
  init p := p.taken = [] ∧ ∃ policy call now, buildVoteBox dep cfg policy call now = .ok p.box
  step := Poll.step dep k

/-- The three records of the votes of a box agree. -/
structure PollOK (data : DataFixed) (h₀ : Hash) (p : Poll) : Prop where
  instruction : p.box.proposal.instruction = some data
  ballots : Ballots p.box (p.taken.map Taken.vote)
  signers : ∀ (j : Nat) (t : Taken), p.taken[j]? = some t → p.box.votes.get? t.vote.call.signer = some (t.vote.voteAt j)
  sequences : (p.box.votes.values.map Vote.sequence).Perm (List.range p.taken.length)
  voteHash : p.box.voteHash = voteChain dep h₀ (p.taken.map Taken.entry)
  receipts : HashChain.Linked (fun h i (e : Entry) => (dep.instruction.nextVoteHash h i e.1 e.2.1 e.2.2).1) h₀
    (p.taken.map Taken.entry) (p.taken.map fun t => (t.receipt.sequence, t.receipt.voteHash))

end Poll

section PollRuns

variable {dep : Deps} {cfg : Config} {policy : SigningPolicy} {k : Key} {p p' : Poll} {data : DataFixed} {h₀ : Hash}

theorem voteChain_concat (h : Hash) (entries : List Entry) (e : Entry) :
    voteChain dep h (entries ++ [e]) =
      (dep.instruction.nextVoteHash (voteChain dep h entries) entries.length e.1 e.2.1 e.2.2).1 :=
  HashChain.digest_concat entries e

theorem PollOK.fresh {call : Call} {now : Time} {box : VoteBox}
    (h : buildVoteBox dep cfg policy call now = .ok box) :
    PollOK dep call.data.toDataFixed box.voteHash ⟨box, []⟩ := by
  have hf := buildVoteBox_ok h
  refine ⟨hf.instruction, .fresh hf.votes, fun j t ht => (by cases ht), ?_, rfl, .nil⟩
  rw [hf.votes]
  exact .refl _

/-- **The step.** The next number is free, and the receipt is the next link of
the chain. -/
theorem PollOK.taken (hp : PollOK dep data h₀ p) {call : Call} {clock : Clock} {box : VoteBox} {receipt : Receipt}
    {reached : Bool} (h : castOn dep policy call clock p.box = (box, .ok (receipt, reached))) :
    PollOK dep data h₀ ⟨box, p.taken ++ [⟨⟨k.round, k.hash, call, clock.vote, reached⟩, receipt⟩]⟩ := by
  have hrec := castOn_ok h
  obtain ⟨hnext, rfl⟩ := VoteBox.addVote_receipt h
  have hsize : p.box.votes.size = p.taken.length := by rw [hp.ballots.size, List.length_map]
  have hchain : box.voteHash = (dep.instruction.nextVoteHash (voteChain dep h₀ (p.taken.map Taken.entry))
      (p.taken.map Taken.entry).length call.signature call.data.additionalVariableMessage clock.vote.unixU64).1 := by
    rw [← hp.voteHash, List.length_map, ← hsize, hnext]
  refine ⟨hrec.proposal ▸ hp.instruction, ?_, fun j t ht => ?_, ?_, ?_, ?_⟩
  · rw [List.map_append]
    exact hp.ballots.recorded hrec rfl rfl
  · have hnext' : p.box.nextVote clock.vote call.signature call.data.additionalVariableMessage =
        (⟨k.round, k.hash, call, clock.vote, reached⟩ : Accepted).voteAt p.taken.length := by
      rw [VoteBox.nextVote, Accepted.voteAt, hsize]
    dsimp only
    rw [hrec.votes, GoMap.get?_set]
    rcases Lts.getElem?_snoc.mp ht with ht | ⟨rfl, rfl⟩
    · have hold := hp.signers j t ht
      split
      next heq => rw [heq, hrec.new] at hold; cases hold
      next => exact hold
    · simp only [if_true, hnext']
  · dsimp only
    rw [hrec.votes, GoMap.values_set_new hrec.new, List.map_cons, List.length_append, List.length_singleton,
      List.range_succ]
    refine .trans (.cons _ hp.sequences) ?_
    rw [show (p.box.nextVote clock.vote call.signature call.data.additionalVariableMessage).sequence =
      p.taken.length from hsize]
    exact (List.perm_append_singleton _ _).symm
  · dsimp only
    rw [List.map_append, List.map_singleton, voteChain_concat]
    exact hchain
  · have hlink := hp.receipts.concat (call.signature, call.data.additionalVariableMessage, clock.vote.unixU64)
    rw [List.length_map] at hlink hchain
    simp only [List.map_append, List.map_singleton, Taken.entry, hsize, hchain]
    exact hlink

theorem Poll.step_inv {b : Attempt} (h : Poll.step dep k p b = some p') :
    (∃ box err, castOn dep b.policy b.call b.clock p.box = (box, .error err) ∧ p' = { p with box }) ∨
      ∃ box receipt reached, castOn dep b.policy b.call b.clock p.box = (box, .ok (receipt, reached)) ∧
        p' = ⟨box, p.taken ++ [⟨⟨k.round, k.hash, b.call, b.clock.vote, reached⟩, receipt⟩]⟩ := by
  simp only [Poll.step] at h
  split at h
  next hc => exact .inl ⟨_, _, hc, (Option.some.inj h).symm⟩
  next hc => exact .inr ⟨_, _, _, hc, (Option.some.inj h).symm⟩

theorem pollOK_of_reach (hnext : ∀ h i s m t, (dep.instruction.nextVoteHash h i s m t).2 = none)
    (h : Lts.Reach (poll dep cfg k) Lts.Free p) :
    ∃ data h₀, dep.instruction.initialVoteHash data = .ok h₀ ∧ PollOK dep data h₀ p := by
  refine h.invariant (fun p => ∃ data h₀, dep.instruction.initialVoteHash data = .ok h₀ ∧ PollOK dep data h₀ p)
    (fun p hinit => ?_) fun p e p' _ ih _ hs => ?_
  · obtain ⟨box, taken⟩ := p
    obtain ⟨rfl, policy, call, now, hb⟩ := hinit
    exact ⟨_, _, buildVoteBox_initial hb, .fresh hb⟩
  · obtain ⟨data, h₀, hinit, hok⟩ := ih
    refine ⟨data, h₀, hinit, ?_⟩
    rcases Poll.step_inv hs with ⟨box, err, hc, rfl⟩ | ⟨box, receipt, reached, hc, rfl⟩
    · rw [VoteBox.addVote_error_of_next hnext hc]
      exact hok
    · exact hok.taken hc

theorem taken_mono (h : Lts.Reach (poll dep cfg k) Lts.Free p)
    (hl : Lts.Later (poll dep cfg k) Lts.Free p p') : p.taken <+: p'.taken := by
  refine hl.relation (fun p p' : Poll => p.taken <+: p'.taken) (fun p => List.prefix_rfl)
    (fun a b c hab hbc => List.IsPrefix.trans hab hbc) (fun p e p' _ _ hs => ?_) h
  rcases Poll.step_inv hs with ⟨box, err, -, rfl⟩ | ⟨box, receipt, reached, -, rfl⟩
  · exact List.prefix_rfl
  · exact List.prefix_append _ _

/-- What an action lists. -/
structure Lists (a : Action) (taken : List Taken) : Prop where
  signatures : a.signatures = taken.map (·.vote.call.signature)
  messages : a.additionalVariableMessages = taken.map (·.vote.call.data.additionalVariableMessage)
  timestamps : a.timestamps = taken.map (·.vote.time.unixU64)

theorem Lists.entries {a : Action} {taken : List Taken} (h : Lists a taken) : entriesOf a = taken.map Taken.entry := by
  rw [entriesOf, h.signatures, h.messages, h.timestamps, List.zip_map', List.zip_map']
  rfl

theorem PollOK.lists (hp : PollOK dep data h₀ p) {tag : SubmissionTag} {a : Action}
    (h : p.box.action dep tag = .ok a) : Lists a p.taken := by
  obtain ⟨data', rfl⟩ := VoteBox.action_ok hp.ballots h
  constructor <;> simp [actionOf, Function.comp_def]

/-- **Receipts, chain and actions agree**, for every box and every sequence of
votes, whatever `NextVoteHash` computes as long as it succeeds. The numbers of
the stored votes are `0 … n-1`, so that `signersData` writes every slot of its
slices once, with vote `j` at `j`; the receipt of vote `j` has number `j` and
the chain over the votes up to it; every action lists the votes in this
order, so what a threshold action lists is the beginning of what a later end
action lists; and the chain over what an end action lists passes through every
receipt and ends in the vote hash of the box. -/
theorem receipts_verify (hnext : ∀ h i s m t, (dep.instruction.nextVoteHash h i s m t).2 = none)
    (h : Lts.Reach (poll dep cfg k) Lts.Free p) :
    ∃ data h₀, p.box.proposal.instruction = some data ∧ dep.instruction.initialVoteHash data = .ok h₀ ∧
      p.box.votes.size = p.taken.length ∧
      (p.box.votes.values.map Vote.sequence).Perm (List.range p.taken.length) ∧
      (∀ (j : Nat) t, p.taken[j]? = some t → p.box.votes.get? t.vote.call.signer = some (t.vote.voteAt j)) ∧
      (∀ (j : Nat) t, p.taken[j]? = some t → t.receipt.sequence = j ∧
        t.receipt.voteHash = voteChain dep h₀ ((p.taken.map Taken.entry).take (j + 1))) ∧
      (∀ tag a, p.box.action dep tag = .ok a → Lists a p.taken) ∧
      (∀ p' t e, Lts.Later (poll dep cfg k) Lts.Free p p' → p.box.action dep .threshold = .ok t →
        p'.box.action dep .end = .ok e → t.signatures <+: e.signatures ∧
          t.additionalVariableMessages <+: e.additionalVariableMessages ∧ t.timestamps <+: e.timestamps) ∧
      ∀ e, p.box.action dep .end = .ok e → voteChain dep h₀ (entriesOf e) = p.box.voteHash ∧
        ∀ (j : Nat) t, p.taken[j]? = some t → voteChain dep h₀ ((entriesOf e).take (j + 1)) = t.receipt.voteHash := by
  obtain ⟨data, h₀, hinit, hok⟩ := pollOK_of_reach hnext h
  have hreceipt : ∀ (j : Nat) t, p.taken[j]? = some t → t.receipt.sequence = j ∧
      t.receipt.voteHash = voteChain dep h₀ ((p.taken.map Taken.entry).take (j + 1)) := by
    intro j t ht
    have hlink := hok.receipts.digest j (t.receipt.sequence, t.receipt.voteHash) (by rw [List.getElem?_map, ht]; rfl)
    exact Prod.mk.inj hlink
  refine ⟨data, h₀, hok.instruction, hinit, ?_, hok.sequences, hok.signers, hreceipt,
    fun tag a ha => hok.lists ha, ?_, ?_⟩
  · rw [hok.ballots.size, List.length_map]
  · intro p' t e hl ht he
    obtain ⟨_, _, -, hok'⟩ := pollOK_of_reach hnext (h.later hl)
    have hmono := taken_mono h hl
    have hts := hok.lists ht
    have hes := hok'.lists he
    rw [hts.signatures, hts.messages, hts.timestamps, hes.signatures, hes.messages, hes.timestamps]
    exact ⟨hmono.map _, hmono.map _, hmono.map _⟩
  · intro e he
    rw [(hok.lists he).entries]
    exact ⟨hok.voteHash.symm, fun j t ht => (hreceipt j t ht).2.symm⟩

end PollRuns

/-! ## The boxes of a storage -/

section Stored

variable {dep : Deps} {cfg : Config} {r r' r₁ : Round} {hash : Hash} {call : Call} {clock : Clock} {voted : Voted}

variable {cyc : CyclicPkg} {s : State cyc} {ok : State cyc → Event → Prop}

/-- The box, if it is stored and has not ended, is in a run of its own, in
which it took the votes of the storage's history; a box that is not stored
has no history. -/
def PolledIn (dep : Deps) (cfg : Config) (k : Key) (history : List Accepted) : Option VoteBox → Prop
  | none => history = []
  | some box => box.deleted = false →
      ∃ p, Lts.Reach (poll dep cfg k) Lts.Free p ∧ p.box = box ∧ p.taken.map Taken.vote = history

theorem Target.poll {box : VoteBox} {existsB : Bool} {k : Key} {history : List Accepted}
    (ht : Target dep cfg r hash call clock r₁ box existsB)
    (h : PolledIn dep cfg k history (r.box? call.data.instructionID hash)) :
    ∃ p, Lts.Reach (poll dep cfg k) Lts.Free p ∧ p.box = box ∧ p.taken.map Taken.vote = history := by
  cases ht with
  | stored hb hd =>
    rw [hb] at h
    exact h hd
  | opened hb ho =>
    rw [hb] at h
    exact ⟨⟨box, []⟩, .init ⟨rfl, _, _, _, (startVoteBox_built ho).2⟩, rfl, h.symm⟩

/-- A vote that is taken goes into the run of its box, with the receipt
`AddVote` returns. -/
theorem castVote_poll {i : Nat} {history : List Accepted}
    (h : PolledIn dep cfg ⟨i, call.data.instructionID, hash⟩ history (r.box? call.data.instructionID hash))
    (hcast : r.castVote dep cfg hash call clock = (r', .ok voted)) :
    ∃ p t, Lts.Reach (poll dep cfg ⟨i, call.data.instructionID, hash⟩) Lts.Free p ∧
      r'.box? call.data.instructionID hash = some p.box ∧ p.taken.getLast? = some t ∧ t.receipt = voted.receipt ∧
      p.taken.map Taken.vote = history ++ [⟨i, hash, call, clock.vote, voted.reached⟩] := by
  obtain ⟨r₁, box, existsB, box', ht, hc, hb⟩ := Round.castVote_taken hcast
  obtain ⟨p, hp, rfl, hhist⟩ := ht.poll h
  refine ⟨_, ⟨⟨i, hash, call, clock.vote, voted.reached⟩, voted.receipt⟩,
    hp.step (e := ⟨r.policy, call, clock⟩) trivial (by simp only [poll, Poll.step, hc]; rfl), ?_, ?_, rfl, ?_⟩
  · rw [hb, if_pos ⟨rfl, rfl⟩]
  · simp
  · rw [← hhist]; simp

/-- **Every box of a storage is in a run of its own.** -/
theorem polls_of_reach (h : Lts.Reach (system dep cyc cfg) ok s) (k : Key) :
    PolledIn dep cfg k (votesOf s.accepted k) (s.storage.box? k) := by
  have hI : BoxRule dep cfg fun _ k history box => box.deleted = false →
      ∃ p, Lts.Reach (poll dep cfg k) Lts.Free p ∧ p.box = box ∧ p.taken.map Taken.vote = history := by
    refine ⟨fun policy k call now box hb _ => ⟨⟨box, []⟩, .init ⟨rfl, _, _, _, hb⟩, rfl, rfl⟩, ?_, ?_, ?_⟩
    · intro policy k history call clock box box' receipt reached ih hd hc _
      obtain ⟨p, hp, rfl, rfl⟩ := ih hd
      exact ⟨_, hp.step (e := ⟨policy, call, clock⟩) trivial (by simp only [poll, Poll.step, hc]; rfl), rfl, by simp⟩
    · intro policy k history call clock box box' err ih hd hc _
      obtain ⟨p, hp, rfl, rfl⟩ := ih hd
      exact ⟨{ p with box := box' },
        hp.step (e := ⟨policy, call, clock⟩) trivial (by simp only [poll, Poll.step, hc]), rfl, rfl⟩
    · intro policy k history box _ _ hdel
      cases hdel
  cases hb : s.storage.box? k with
  | none => exact (box_invariant hI h).absent k hb
  | some box =>
    obtain ⟨r, hr, hb⟩ := Storage.box?_eq_some_iff.mp hb
    exact ((box_invariant hI h).stored k r box hr hb).2

end Stored

/-- Two votes on a box, and one more of the first voter. -/
def threeBallots : List Attempt :=
  [⟨twoVoters 7, plainCall 7 1 5 1 [1], clockAt 100⟩, ⟨twoVoters 7, plainCall 7 1 5 2 [2], clockAt 101⟩,
    ⟨twoVoters 7, plainCall 7 1 5 1 [3], clockAt 102⟩]

/-- The third vote is refused; the end action leads to the vote hash. -/
theorem receipts_verify_threeBallots :
    ∃ (p : Poll) (e : Action), Lts.Reach (poll plainDeps plainConfig ⟨0, 1, 6⟩) Lts.Free p ∧ p.taken.length = 2 ∧
      p.box.action plainDeps .end = .ok e ∧ voteChain plainDeps 0 (entriesOf e) = p.box.voteHash := by
  have hrun : (buildVoteBox plainDeps plainConfig (twoVoters 7) (plainCall 7 1 5 1 [1])
      (clockAt 100).build).toOption.any
      (fun box => ((poll plainDeps plainConfig ⟨0, 1, 6⟩).run ⟨box, []⟩ threeBallots).any fun p =>
        p.taken.length = 2 ∧ (p.box.action plainDeps .end).toOption.isSome) := by decide +kernel
  obtain ⟨box, hbox, hrun⟩ := (Option.any_eq_true _ _).mp hrun
  obtain ⟨p, hp, hend⟩ := (Option.any_eq_true _ _).mp hrun
  obtain ⟨hlen, hact⟩ := of_decide_eq_true hend
  have hreach : Lts.Reach (poll plainDeps plainConfig ⟨0, 1, 6⟩) Lts.Free p :=
    .of_run (.init ⟨rfl, _, _, _, Except.toOption_eq_some_iff.mp hbox⟩) (fun _ _ _ => trivial) hp
  obtain ⟨_, h₀, -, hinit, -, -, -, -, -, -, hchain⟩ := receipts_verify (fun _ _ _ _ _ => rfl) hreach
  obtain ⟨e, ha⟩ := Except.exists_ok_of_isSome hact
  obtain rfl : h₀ = 0 := (Except.ok.inj hinit).symm
  exact ⟨p, e, hreach, hlen, ha, (hchain e ha).1⟩

end TeeProxy.Voting
