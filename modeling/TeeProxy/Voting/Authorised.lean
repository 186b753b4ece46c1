/-
What stands behind an action of the voting storage.

An action is given by a box that is finalized and not yet deleted, and a box is
opened by a call that passed the checks of `AddVote`. So behind every action
there are votes of distinct signers, all on the same hash and of the epoch of
the round's policy, that passed the terms the opening call gave the box
(`Authorised`). This holds of every action the storage sends, in every run,
whatever is cancelled and however votes and expirations interleave
(`authorised_of_reach`).
-/
import TeeProxy.Voting.Tally
import TeeProxy.Voting.Totals

namespace TeeProxy.Voting

/-! ## Calls and the boxes they open -/

section Vouched

variable (dep : Deps) (cyc : CyclicPkg) (cfg : Config) (Q : Call → Prop)

/-- A call that counts under a policy for a hash. -/
structure CallFor (policy : SigningPolicy) (hash : Hash) (call : Call) : Prop where
  required : Q call
  hash : dep.instruction.hashFixed call.data.toDataFixed = .ok hash
  epoch : call.data.rewardEpochID = policy.rewardEpochID

/-- The terms of a box are those a call gave it. -/
def Opened (policy : SigningPolicy) (k : Key) (p : Proposal) : Prop :=
  ∃ call now box, CallFor dep Q policy k.hash call ∧ call.data.instructionID = k.id ∧
    buildVoteBox dep cfg policy call now = .ok box ∧ p = box.proposal

/-- Every call counts under the policy of the round it found, and every box that
is not deleted has the terms of a call. -/
structure Vouched (s : State cyc) : Prop where
  resident : ∀ epoch i, cyc.get s.storage.cyclic epoch = some i →
    ∃ r, s.storage.rounds[i]? = some r ∧ r.policy.rewardEpochID = epoch
  entered : ∀ c ∈ s.entered, ∃ r, s.storage.rounds[c.round]? = some r ∧ CallFor dep Q r.policy c.hash c.call
  accepted : ∀ v ∈ s.accepted, ∃ r, s.storage.rounds[v.round]? = some r ∧ CallFor dep Q r.policy v.hash v.call
  boxes : ∀ k r box, s.storage.rounds[k.round]? = some r → r.box? k.id k.hash = some box → box.deleted = false →
    Opened dep cfg Q r.policy k box.proposal

end Vouched

section Steps

variable {dep : Deps} {cyc : CyclicPkg} {cfg : Config} {Q : Call → Prop} {s s' : State cyc} {e : Event}
  {ok : State cyc → Event → Prop}

theorem policy_step (hs : Step dep cfg s e s') {i : Nat} {r : Round} (hr : s.storage.rounds[i]? = some r) :
    ∃ r', s'.storage.rounds[i]? = some r' ∧ r'.policy = r.policy := by
  have hset : ∀ {n r₀ r₁}, s.storage.rounds[n]? = some r₀ → r₁.policy = r₀.policy →
      ∃ r', (s.storage.rounds.set n r₁)[i]? = some r' ∧ r'.policy = r.policy := by
    intro n r₀ r₁ hn hp
    by_cases hni : n = i
    · subst hni
      obtain rfl : r₀ = r := Option.some.inj (hn.symm.trans hr)
      exact ⟨r₁, List.getElem?_set_self (List.getElem?_eq_some_iff.mp hn).1, hp⟩
    · exact ⟨r, (List.getElem?_set_ne hni).trans hr, rfl⟩
  cases hs with
  | known | turnedAway | entered | sent | cancelled => exact ⟨r, hr, rfl⟩
  | stored hrs =>
    refine ⟨r, ?_, rfl⟩
    dsimp only
    rw [hrs]
    exact Lts.getElem?_snoc.mpr (.inl hr)
  | refused _ hn hcast => exact hset hn (Round.castVote_policy hcast)
  | voted _ hn hcast hm _ hrs =>
    dsimp only
    rw [hrs]
    have hp := Round.castVote_policy hcast
    cases hm
    exact hset hn hp
  | ended hn => exact hset hn rfl

theorem exists_round_step (hs : Step dep cfg s e s') {i : Nat} {P : SigningPolicy → Prop}
    (h : ∃ r, s.storage.rounds[i]? = some r ∧ P r.policy) : ∃ r, s'.storage.rounds[i]? = some r ∧ P r.policy := by
  obtain ⟨r, hr, hP⟩ := h
  obtain ⟨r', hr', hp⟩ := policy_step hs hr
  exact ⟨r', hr', hp.symm ▸ hP⟩

theorem Vouched.target (h : Vouched dep cyc cfg Q s) {c : Entered} {clock : Clock} {r r₁ : Round} {box : VoteBox}
    {existsB : Bool} (hc : c ∈ s.entered) (hr : s.storage.rounds[c.round]? = some r)
    (ht : Target dep cfg r c.hash c.call clock r₁ box existsB) : Opened dep cfg Q r.policy c.key box.proposal := by
  cases ht with
  | stored hb hd => exact h.boxes c.key r box hr hb hd
  | opened _ ho =>
    obtain ⟨r', hr', hcall⟩ := h.entered c hc
    obtain rfl : r = r' := Option.some.inj (hr.symm.trans hr')
    exact ⟨c.call, clock.build, box, hcall, rfl, (startVoteBox_built ho).2, rfl⟩

/-- One round is replaced by one with the same policy, whose open boxes have the
terms of a call. -/
theorem Vouched.boxes_set (h : Vouched dep cyc cfg Q s) {i : Nat} {r r' : Round} (hr : s.storage.rounds[i]? = some r)
    (hpolicy : r'.policy = r.policy)
    (hboxes : ∀ k box, k.round = i → r'.box? k.id k.hash = some box → box.deleted = false →
      Opened dep cfg Q r.policy k box.proposal) :
    ∀ k r₂ box, (s.storage.rounds.set i r')[k.round]? = some r₂ → r₂.box? k.id k.hash = some box →
      box.deleted = false → Opened dep cfg Q r₂.policy k box.proposal := by
  intro k r₂ box hr₂ hb hd
  rw [List.getElem?_set] at hr₂
  split at hr₂
  next hi =>
    rw [if_pos (List.getElem?_eq_some_iff.mp hr).1] at hr₂
    cases hr₂
    rw [hpolicy]
    exact hboxes k box hi.symm hb hd
  next => exact h.boxes k r₂ box hr₂ hb hd

theorem Vouched.step (h : Vouched dep cyc cfg Q s) (hQ : ∀ call, e = .addVote call → Q call)
    (hs : Step dep cfg s e s') : Vouched dep cyc cfg Q s' := by
  have hentered : ∀ c ∈ s.entered, ∃ r, s'.storage.rounds[c.round]? = some r ∧ CallFor dep Q r.policy c.hash c.call :=
    fun c hc => exists_round_step (P := fun p => CallFor dep Q p c.hash c.call) hs (h.entered c hc)
  have haccepted : ∀ v ∈ s.accepted, ∃ r, s'.storage.rounds[v.round]? = some r ∧ CallFor dep Q r.policy v.hash v.call :=
    fun v hv => exists_round_step (P := fun p => CallFor dep Q p v.hash v.call) hs (h.accepted v hv)
  have hresident : ∀ epoch i, cyc.get s.storage.cyclic epoch = some i →
      ∃ r, s'.storage.rounds[i]? = some r ∧ r.policy.rewardEpochID = epoch := fun epoch i hget =>
    exists_round_step (P := fun p => p.rewardEpochID = epoch) hs (h.resident epoch i hget)
  cases hs with
  | known | turnedAway | sent | cancelled => exact ⟨h.resident, h.entered, h.accepted, h.boxes⟩
  | @stored policy storage hrs hcyc =>
    refine ⟨fun epoch i hget => ?_, hentered, haccepted, fun k r box hr hb hd => ?_⟩
    · dsimp only at hget hresident ⊢
      rw [hcyc, cyc.get_store] at hget
      split at hget
      next heq =>
        cases hget
        refine ⟨createRound policy cfg.maxPendingRequests cfg.collectVoters, ?_, heq.symm⟩
        rw [hrs]
        exact Lts.getElem?_snoc.mpr (.inr ⟨rfl, rfl⟩)
      next =>
        split at hget
        · cases hget
        · exact hresident epoch i hget
    · dsimp only at hr
      rw [hrs] at hr
      rcases Lts.getElem?_snoc.mp hr with hr | ⟨-, rfl⟩
      · exact h.boxes k r box hr hb hd
      · cases hb
  | @entered call i hash hchecked hget =>
    refine ⟨h.resident, fun c hc => ?_, h.accepted, h.boxes⟩
    rcases List.mem_append.mp hc with hc | hc
    · exact h.entered c hc
    · obtain rfl := List.mem_singleton.mp hc
      obtain ⟨r, hr, hepoch⟩ := h.resident _ i hget
      exact ⟨r, hr, hQ call rfl, hchecked.hash, hepoch.symm⟩
  | refused hn hr hcast =>
    refine ⟨hresident, fun c hc => hentered c (List.mem_of_mem_eraseIdx hc), haccepted, ?_⟩
    refine h.boxes_set hr (Round.castVote_policy hcast) fun k box hk hb hd => ?_
    rcases Round.castVote_refused hcast hb with hb | ⟨box₀, err, hb₀, hd₀, hc⟩
    · exact h.boxes k _ box (hk.symm ▸ hr) hb hd
    · obtain ⟨voteHash, rfl⟩ := VoteBox.addVote_error hc
      exact h.boxes k _ box₀ (hk.symm ▸ hr) hb₀ hd₀
  | @voted n clock c r r' r'' voted storage hn hr hcast hm hcyc hrs =>
    have hmem := List.mem_of_getElem? hn
    refine ⟨fun epoch i hget => hresident epoch i (hcyc ▸ hget),
      fun c hc => hentered c (List.mem_of_mem_eraseIdx hc), fun v hv => ?_, ?_⟩
    · rcases List.mem_append.mp hv with hv | hv
      · exact haccepted v hv
      · obtain rfl := List.mem_singleton.mp hv
        exact hentered c hmem
    · dsimp only
      rw [hrs]
      obtain ⟨r₁, box₀, existsB, box', ht, hc, hboxes⟩ := Round.castVote_taken hcast
      have hsame : r''.policy = r.policy ∧ ∀ id hash, r''.box? id hash = r'.box? id hash := by
        have hp := Round.castVote_policy hcast
        cases hm
        exact ⟨hp, fun _ _ => rfl⟩
      refine h.boxes_set hr hsame.1 fun k box hk hb hd => ?_
      rw [hsame.2, hboxes] at hb
      split at hb
      next heq =>
        cases hb
        obtain rfl : k = c.key := Key.ext hk heq.1 heq.2
        rw [(castOn_ok hc).proposal]
        exact h.target hmem hr ht
      next => exact h.boxes k r box (hk.symm ▸ hr) hb hd
  | @ended k r box hr hb hd =>
    refine ⟨hresident, hentered, haccepted, ?_⟩
    refine h.boxes_set hr rfl fun k' box' hk hb' hd' => ?_
    rw [Round.box?_setBox] at hb'
    split at hb'
    · cases hb'; cases hd'
    · exact h.boxes k' r box' (hk.symm ▸ hr) hb' hd'

theorem vouched (hok : ∀ s call, ok s (.addVote call) → Q call) (h : Lts.Reach (system dep cyc cfg) ok s) :
    Vouched dep cyc cfg Q s := by
  refine h.invariant (Vouched dep cyc cfg Q) ?_ fun s e s' _ ih he hs => ih.step (fun call heq => ?_) (step_inv hs)
  · rintro s rfl
    refine ⟨fun epoch i hget => ?_, fun c hc => ?_, fun v hv => ?_, fun k r box hr => ?_⟩
    · change cyc.get (cyc.new cfg.historySize) epoch = some i at hget
      rw [cyc.get_new] at hget
      cases hget
    · cases hc
    · cases hv
    · cases hr
  · subst heq
    exact hok s call he

/-! ## Signers -/

/-- The signers of a box are those of its votes, the last first. -/
theorem boxRule_signers : BoxRule dep cfg fun _ _ history box => box.deleted = false →
    box.votes.keys = (history.map (·.call.signer)).reverse where
  opened _ _ _ _ _ hb _ := by rw [(buildVoteBox_ok hb).votes]; rfl
  recorded _ _ _ _ _ _ _ _ _ ih hd hc _ := by
    have hrec := castOn_ok hc
    rw [hrec.votes, GoMap.keys_set_new hrec.new, ih hd, List.map_append, List.reverse_append]
    rfl
  refused _ _ _ _ _ _ _ _ ih hd hc _ := by
    obtain ⟨voteHash, rfl⟩ := VoteBox.addVote_error hc
    exact ih hd
  ended _ _ _ _ _ _ hdel := by cases hdel

end Steps

/-! ## Actions -/

/-- The signers of votes, in order. -/
def signersOf (history : List Accepted) : List Address := history.map (·.call.signer)

/-- The votes behind an action: on the hash of its box and under the policy of
its round, by distinct signers who may vote on it, and enough to pass the terms
of the call that opened the box. -/
structure Authorised (dep : Deps) (cfg : Config) (Q : Call → Prop) (policy : SigningPolicy) (k : Key)
    (history : List Accepted) (call : Call) (box : VoteBox) (a : Action) : Prop where
  opening : CallFor dep Q policy k.hash call
  id : call.data.instructionID = k.id
  built : ∃ now, buildVoteBox dep cfg policy call now = .ok box
  action : a = actionOf dep call.data.toDataFixed .threshold history ∨
    a = actionOf dep call.data.toDataFixed .end history
  votes : ∀ v ∈ history, v.key = k ∧ CallFor dep Q policy k.hash v.call
  nodup : (signersOf history).Nodup
  eligible : ∀ x ∈ signersOf history, x ∈ policy.voters.voters ∨ isCosigner box.proposal.cosigners x = true
  passed : (ballot policy box.proposal).Passed (signersOf history).toFinset

/-- There are such votes among those recorded, if the policy's weights fit. -/
def Backed {cyc : CyclicPkg} (dep : Deps) (cfg : Config) (Q : Call → Prop) (s : State cyc) (k : Key) (a : Action) :
    Prop :=
  ∃ r history call box, s.storage.rounds[k.round]? = some r ∧ history <+: votesOf s.accepted k ∧
    (r.policy.weightSum ≤ 65535 → Authorised dep cfg Q r.policy k history call box a)

section Actions

variable {dep : Deps} {cyc : CyclicPkg} {cfg : Config} {Q : Call → Prop} {s s' : State cyc} {e : Event}
  {ok : State cyc → Event → Prop} {node : NodePkg} {chainID : UInt64}

theorem VoteBox.tag_endActions {box : VoteBox} {finalizedHash : Hash} {a : Action}
    (h : a ∈ box.endActions dep finalizedHash) : box.action dep .threshold = .ok a ∨ box.action dep .end = .ok a := by
  have hmem : ∀ tag, a ∈ (box.action dep tag).toOption.toList → box.action dep tag = .ok a := fun tag ha =>
    Except.toOption_eq_some_iff.mp (Option.mem_toList.mp ha)
  unfold VoteBox.endActions at h
  split at h
  · cases h
  split at h
  · cases h
  split at h
  · exact (List.mem_append.mp h).imp (hmem _) (hmem _)
  split at h
  · cases h
  · exact .inr (hmem _ h)

theorem backed_of_action (hok : ∀ s call, ok s (.addVote call) → Q call)
    (hwired : ∀ s e, ok s e → Wired dep cyc node chainID s e) (h : Lts.Reach (system dep cyc cfg) ok s) {k : Key}
    {box : VoteBox} (hb : s.storage.box? k = some box) {a : Action}
    (ha : box.action dep .threshold = .ok a ∨ box.action dep .end = .ok a) : Backed dep cfg Q s k a := by
  obtain ⟨tag, htag, ha⟩ : ∃ tag, (tag = .threshold ∨ tag = .end) ∧ box.action dep tag = .ok a := by
    rcases ha with ha | ha
    · exact ⟨_, .inl rfl, ha⟩
    · exact ⟨_, .inr rfl, ha⟩
  obtain ⟨hd, hf, data, m, hi, hm⟩ := VoteBox.action_open ha
  obtain ⟨r, hr, hbox⟩ := Storage.box?_eq_some_iff.mp hb
  have hv := vouched hok h
  obtain ⟨call, now, box₀, hcall, hid, hbuild, hprop⟩ := hv.boxes k r box hr hbox hd
  have hballots := ballots_of_reach h hb hd
  have hkeys := ((box_invariant boxRule_signers h).stored k r box hr hbox).2 hd
  refine ⟨r, votesOf s.accepted k, call, box₀, hr, List.prefix_rfl, fun hsum => ?_⟩
  have hcounted := roundCounted_of_reach (h.mono fun s e _ => hwired s e) r (List.mem_of_getElem? hr) hsum
    k.id k.hash box hbox hd
  have hset : box.signers = (signersOf (votesOf s.accepted k)).toFinset := by
    rw [VoteBox.signers, hkeys, List.toFinset_reverse]
    rfl
  have hdata : data = call.data.toDataFixed := by
    rw [hprop, (buildVoteBox_ok hbuild).instruction] at hi
    exact (Option.some.inj hi).symm
  rw [VoteBox.action_eq hd hf hi hm hballots, hdata] at ha
  refine ⟨hcall, hid, ⟨now, hbuild⟩, ?_, fun v hv' => ?_, ?_, fun x hx => ?_, ?_⟩
  · rcases htag with rfl | rfl
    · exact .inl (Except.ok.inj ha).symm
    · exact .inr (Except.ok.inj ha).symm
  · obtain ⟨hmem, hkey⟩ := List.mem_filter.mp hv'
    have hkey : v.key = k := of_decide_eq_true hkey
    subst hkey
    obtain ⟨r', hr', hcallv⟩ := hv.accepted v hmem
    obtain rfl : r = r' := Option.some.inj (hr.symm.trans hr')
    exact ⟨rfl, hcallv⟩
  · have hnodup := box.votes.nodup_keys
    rw [hkeys] at hnodup
    exact List.nodup_reverse.mp hnodup
  · rw [← List.mem_toFinset, ← hset] at hx
    rw [← hprop]
    exact hcounted.eligible x hx
  · rw [← hset, ← hprop]
    exact hcounted.finalized.mp hf

theorem Backed.step {k : Key} {a : Action} (h : Backed dep cfg Q s k a) (hs : Step dep cfg s e s') :
    Backed dep cfg Q s' k a := by
  obtain ⟨r, history, call, box, hr, hpre, hauth⟩ := h
  obtain ⟨r', hr', hp⟩ := policy_step hs hr
  refine ⟨r', history, call, box, hr', hpre.trans ?_, hp.symm ▸ hauth⟩
  cases hs with
  | voted =>
    rw [votesOf, votesOf, List.filter_append]
    exact List.prefix_append _ _
  | _ => exact List.prefix_rfl

/-- **Every action the storage sends has votes behind it**, in every run. -/
theorem authorised_of_reach (hok : ∀ s call, ok s (.addVote call) → Q call)
    (hwired : ∀ s e, ok s e → Wired dep cyc node chainID s e) (h : Lts.Reach (system dep cyc cfg) ok s) :
    (∀ x ∈ s.senders, ∀ a ∈ x.actions, Backed dep cfg Q s x.key a) ∧
      ∀ x ∈ s.out, Backed dep cfg Q s x.key x.action := by
  refine h.invariant (fun s => (∀ x ∈ s.senders, ∀ a ∈ x.actions, Backed dep cfg Q s x.key a) ∧
    ∀ x ∈ s.out, Backed dep cfg Q s x.key x.action) ?_ ?_
  · rintro s rfl
    exact ⟨fun x hx => (List.not_mem_nil hx).elim, fun x hx => (List.not_mem_nil hx).elim⟩
  · intro s e s' hreach ih he hs
    have hstep := step_inv hs
    have hsenders : ∀ x ∈ s.senders, ∀ a ∈ x.actions, Backed dep cfg Q s' x.key a := fun x hx a ha =>
      (ih.1 x hx a ha).step hstep
    have hout : ∀ x ∈ s.out, Backed dep cfg Q s' x.key x.action := fun x hx => (ih.2 x hx).step hstep
    cases hstep with
    | known | stored | turnedAway | entered | refused => exact ⟨hsenders, hout⟩
    | @voted n clock c r r' r'' voted storage hn hr hcast hm hcyc hrs =>
      refine ⟨fun x hx a ha => ?_, hout⟩
      rcases List.mem_append.mp hx with hx | hx
      · exact hsenders x hx a ha
      -- the finalizing vote: the box as it is stored now gave the action
      obtain rfl := List.mem_singleton.mp hx
      obtain ⟨box, box', hv⟩ := Round.castVote_ok hcast
      have hact : box'.action dep .threshold = .ok a := by
        have ha' : voted.actionToSend = some a := Option.mem_toList.mp ha
        rw [hv.action] at ha'
        split at ha'
        · exact Except.toOption_eq_some_iff.mp ha'
        · cases ha'
      refine backed_of_action hok hwired (hreach.step he hs) ?_ (.inl hact)
      cases hm
      rw [(Storage.lookups_set storage hr hrs).1, if_pos rfl]
      exact (hv.box? _ _).trans (if_pos ⟨rfl, rfl⟩)
    | @ended k r box hr hb hd =>
      refine ⟨fun x hx a ha => ?_, hout⟩
      rcases List.mem_append.mp hx with hx | hx
      · exact hsenders x hx a ha
      obtain rfl := List.mem_singleton.mp hx
      have hbacked := backed_of_action hok hwired hreach ((Storage.box?_of_round hr).trans hb)
        (VoteBox.tag_endActions ha)
      exact hbacked.step (.ended hr hb hd)
    | @sent n key a actions hn =>
      have hold := hsenders _ (List.mem_of_getElem? hn)
      refine ⟨fun x hx b hb => ?_, fun x hx => ?_⟩
      · rcases List.mem_or_eq_of_mem_set hx with hx | rfl
        · exact hsenders x hx b hb
        · exact hold b (List.mem_cons_of_mem _ hb)
      · rcases List.mem_append.mp hx with hx | hx
        · exact hout x hx
        · obtain rfl := List.mem_singleton.mp hx
          exact hold a List.mem_cons_self
    | cancelled hn =>
      refine ⟨fun x hx a ha => ?_, hout⟩
      rcases List.mem_or_eq_of_mem_set hx with hx | rfl
      · exact hsenders x hx a ha
      · cases ha

end Actions

end TeeProxy.Voting
