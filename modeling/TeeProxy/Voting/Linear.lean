/-
Votes and expirations in any interleaving, against the same calls one after
the other: the simulation.

A call takes effect at one step: a vote on a stored box, and an expiration,
where it holds the box; a vote that is refused, where it is; a vote that
opens a box, already where it reserves its slot, since from there on it holds
the lock of its ID and what it will do is fixed (`opening`). `Linear` relates
a state to the round that these effects, in their order, have made of a new
one. For an ID with a vote that is opening a box the round is ahead by that
vote, and its limiter is ahead by the slots that such votes will give back.

Only the limiter can tell the difference: a vote may be refused for a slot
that another vote of its signer has and gives back. Such a call changes
nothing and has no place in the order.

`Linear.move` is the one rule for a step of a call; the rules for the kinds
of effect are instances of it, and `linear_step` applies them.
-/
import TeeProxy.Lib.History
import TeeProxy.Voting.Effects

namespace TeeProxy.Voting.Locks

open History (Item Sequential)

/-! ## Calls one after the other -/

inductive Op
  | vote (a : Arg)
  | expire (id hash : Hash)

inductive Answer
  | voted (res : Except VoteErr Voted)
  | ended (actions : List Action)

/-- The critical section of a call as a whole. -/
def exec (dep : Deps) (cfg : Config) (r : Round) : Op → Option (Round × Answer)
  | .vote a =>
    let (r', res) := r.castVote dep cfg a.hash a.call a.clock
    some (r', .voted res)
  | .expire id hash => match r.box? id hash with
    | none => none
    | some box =>
      let (r', actions) := r.endBox dep id hash box
      some (r', .ended actions)

/-! ## What a state shows of its calls -/

/-- A call: what it does, whether it is opening a box, what it will return or
has returned, and the calls that had a slot when the limiter refused it. -/
structure Trace where
  op : Option Op
  opens : Option Arg
  answer : Option Answer
  against : List Nat

/-- The result, once it is there. -/
def VotePc.result? : VotePc → Option (Except VoteErr Voted)
  | .unlockBox _ _ _ res | .unlockBoxes _ _ res | .unlockVoting res | .returned res => some res
  | _ => none

/-- The vote has a slot and no box yet. -/
def VotePc.opens : VotePc → Bool
  | .reserved _ | .opened _ _ => true
  | _ => false

/-- The actions, once they are made. -/
def EndPc.result? : EndPc → Option (List Action)
  | .unlockBox actions | .unlockBoxes actions | .returned actions => some actions
  | _ => none

/-- A goroutine as an operation. -/
def Thread.trace : Thread → Trace
  | .addVote a against pc => ⟨some (.vote a), if pc.opens then some a else none, pc.result?.map .voted, against⟩
  | .scheduleEnd id hash _ _ pc => ⟨some (.expire id hash), none, pc.result?.map .ended, []⟩
  | .statuses _ _ => ⟨none, none, none, []⟩

/-- All operations of a state. -/
def State.traces (s : State) : List Trace := s.threads.map Thread.trace

section Relation

variable (dep : Deps) (cfg : Config) (policy : SigningPolicy)

/-- A slot of `p` that the call will give back. -/
def Trace.owes (p : Address) (τ : Trace) : Bool :=
  τ.opens.any fun a => a.call.signer = p && givesBack dep cfg policy a

/-- The slots of a proposer that calls will give back. -/
def owed (ts : List Trace) (p : Address) : Nat := ts.countP (Trace.owes dep cfg policy p)

/-- The limiter refused the vote while a vote of the same signer had a slot
that it gives back. -/
def RefusedInVain (ts : List Trace) (τ : Trace) : Prop :=
  τ.answer = some (.voted (.error (.limiter .limitReached))) ∧
    ∃ a m τ' a', τ.op = some (.vote a) ∧ m ∈ τ.against ∧ ts[m]? = some τ' ∧ τ'.op = some (.vote a') ∧
      a'.call.signer = a.call.signer ∧ givesBack dep cfg policy a' = true

/-- The place of a call in the order. -/
structure Placed (ts : List Trace) (h : Heap) (l : List (Item Op Answer)) (n : Nat) (τ : Trace) : Prop where
  opening : ∀ a, τ.opens = some a →
    ⟨n, .vote a, .voted (Locks.opening dep cfg policy a (h.view a.id)).2⟩ ∈ l
  answered : ∀ x, τ.answer = some x →
    (∃ op, τ.op = some op ∧ ⟨n, op, x⟩ ∈ l) ∨ n ∉ l.map Item.call ∧ RefusedInVain dep cfg policy ts τ
  before : τ.opens = none → τ.answer = none → n ∉ l.map Item.call

/-- The state is what the calls in `l`, one after the other, have made of a
new round, up to the votes that are opening a box. -/
structure Linear (ts : List Trace) (h : Heap) (limiter : Limiter) (l : List (Item Op Answer)) (r : Round) :
    Prop where
  seq : Sequential (exec dep cfg) (createRound policy cfg.maxPendingRequests cfg.collectVoters) l r
  samePolicy : r.policy = policy
  slots : SlotsOK cfg r
  calls : ∀ x ∈ l, ∃ τ, ts[x.call]? = some τ ∧ τ.op = some x.op
  placed : ∀ (n : Nat) (τ : Trace), ts[n]? = some τ → Placed dep cfg policy ts h l n τ
  settled : ∀ id, (∀ τ ∈ ts, ∀ a, τ.opens = some a → a.id ≠ id) → r.view id = h.view id
  ahead : ∀ τ ∈ ts, ∀ a, τ.opens = some a → r.view a.id = (Locks.opening dep cfg policy a (h.view a.id)).1
  limiter : Ahead (owed dep cfg policy ts) limiter r.limiter

end Relation

section Rules

variable {dep : Deps} {cfg : Config} {policy : SigningPolicy} {ts : List Trace} {h h' : Heap}
  {limiter limiter' : Limiter} {l : List (Item Op Answer)} {r r' : Round} {n m : Nat} {τ τ' σ : Trace} {a : Arg}

/-! ## Slots that are owed -/

theorem owed_set (hn : ts[n]? = some τ) (p : Address) :
    owed dep cfg policy (ts.set n τ') p + (if τ.owes dep cfg policy p then 1 else 0) =
      owed dep cfg policy ts p + if τ'.owes dep cfg policy p then 1 else 0 := by
  obtain ⟨hlt, rfl⟩ := List.getElem?_eq_some_iff.mp hn
  have hpos : (if ts[n].owes dep cfg policy p then 1 else 0) ≤ ts.countP (Trace.owes dep cfg policy p) := by
    split
    next howes => exact List.countP_pos_iff.mpr ⟨_, List.getElem_mem hlt, howes⟩
    next => exact Nat.zero_le _
  unfold owed
  rw [List.countP_set hlt]
  omega

theorem Trace.owes_none (hopens : τ.opens = none) (p : Address) : τ.owes dep cfg policy p = false := by
  rw [Trace.owes, hopens]
  rfl

theorem Trace.owes_some (hopens : τ.opens = some a) (p : Address) :
    (if τ.owes dep cfg policy p then 1 else 0) =
      if givesBack dep cfg policy a = true then (if p = a.call.signer then 1 else 0) else 0 := by
  rw [Trace.owes, hopens, Option.any_some]
  cases givesBack dep cfg policy a <;> simp [eq_comm]

theorem owed_set_none (hn : ts[n]? = some τ) (hopens : τ.opens = none) (hopens' : τ'.opens = none) :
    owed dep cfg policy (ts.set n τ') = owed dep cfg policy ts := by
  funext p
  have : owed dep cfg policy (ts.set n τ') p + _ = owed dep cfg policy ts p + _ := owed_set hn p
  rw [Trace.owes_none hopens, Trace.owes_none hopens'] at this
  exact this

/-- A call that starts opening a box owes its slot if it gives it back. -/
theorem owed_opens (hn : ts[n]? = some τ) (hopens : τ.opens = none) (hopens' : τ'.opens = some a) (p : Address) :
    owed dep cfg policy (ts.set n τ') p = owed dep cfg policy ts p +
      if givesBack dep cfg policy a = true then (if p = a.call.signer then 1 else 0) else 0 := by
  have : owed dep cfg policy (ts.set n τ') p + _ = owed dep cfg policy ts p + _ := owed_set hn p
  rw [Trace.owes_none hopens, Trace.owes_some hopens'] at this
  exact this

/-- It no longer does once the box is stored or given up. -/
theorem owed_closes (hn : ts[n]? = some τ) (hopens : τ.opens = some a) (hopens' : τ'.opens = none) (p : Address) :
    owed dep cfg policy ts p = owed dep cfg policy (ts.set n τ') p +
      if givesBack dep cfg policy a = true then (if p = a.call.signer then 1 else 0) else 0 := by
  have : owed dep cfg policy (ts.set n τ') p + _ = owed dep cfg policy ts p + _ := owed_set hn p
  rw [Trace.owes_some hopens, Trace.owes_none hopens'] at this
  exact this.symm

theorem owed_spawn (hopens : σ.opens = none) (p : Address) :
    owed dep cfg policy (ts ++ [σ]) p = owed dep cfg policy ts p := by
  simp [owed, List.countP_append, Trace.owes_none hopens]

/-! ## The calls stay what they are -/

/-- No call is lost, and each does what it did. -/
def SameOps (ts ts' : List Trace) : Prop :=
  ∀ (m : Nat) (σ : Trace), ts[m]? = some σ → ∃ σ', ts'[m]? = some σ' ∧ σ'.op = σ.op

theorem SameOps.set (hn : ts[n]? = some τ) (hop : τ'.op = τ.op) : SameOps ts (ts.set n τ') := by
  intro m σ hm
  rw [List.getElem?_set]
  by_cases hnm : n = m
  · subst hnm
    obtain rfl : τ = σ := Option.some.inj (hn.symm.trans hm)
    exact ⟨τ', by rw [if_pos rfl, if_pos (List.getElem?_eq_some_iff.mp hn).1], hop⟩
  · exact ⟨σ, by rw [if_neg hnm, hm], rfl⟩

theorem SameOps.spawn : SameOps ts (ts ++ [σ]) := by
  intro m σ' hm
  exact ⟨σ', Lts.getElem?_snoc.mpr (.inl hm), rfl⟩

theorem RefusedInVain.frame {ts' : List Trace} (hr : RefusedInVain dep cfg policy ts τ) (hops : SameOps ts ts') :
    RefusedInVain dep cfg policy ts' τ := by
  obtain ⟨hans, a, m, σ, a', hop, hm, hσ, hop', hsigner, hback⟩ := hr
  obtain ⟨σ', hσ', hsame⟩ := hops m σ hσ
  exact ⟨hans, a, m, σ', a', hop, hm, hσ', hsame.trans hop', hsigner, hback⟩

/-- Where a call is in the order does not change by what others do. -/
theorem Placed.frame {ts' : List Trace} {l' : List (Item Op Answer)} (hp : Placed dep cfg policy ts h l m σ)
    (hops : SameOps ts ts') (hview : ∀ a, σ.opens = some a → h'.view a.id = h.view a.id) (hsub : ∀ x ∈ l, x ∈ l')
    (hnew : m ∈ l'.map Item.call → m ∈ l.map Item.call) : Placed dep cfg policy ts' h' l' m σ := by
  refine ⟨fun a ha => ?_, fun x hx => ?_, fun ho ha hmem => hp.before ho ha (hnew hmem)⟩
  · rw [hview a ha]
    exact hsub _ (hp.opening a ha)
  · rcases hp.answered x hx with ⟨op, hop, hmem⟩ | ⟨hnot, hvain⟩
    · exact .inl ⟨op, hop, hsub _ hmem⟩
    · exact .inr ⟨fun hmem => hnot (hnew hmem), hvain.frame hops⟩

theorem Linear.calls_frame {ts' : List Trace} (hl : Linear dep cfg policy ts h limiter l r) (hops : SameOps ts ts') :
    ∀ x ∈ l, ∃ σ, ts'[x.call]? = some σ ∧ σ.op = some x.op := by
  intro x hx
  obtain ⟨σ, hσ, hop⟩ := hl.calls x hx
  obtain ⟨σ', hσ', hsame⟩ := hops x.call σ hσ
  exact ⟨σ', hσ', hsame.trans hop⟩

/-! ## The rules -/

theorem Linear.spawn (hl : Linear dep cfg policy ts h limiter l r) (hopens : σ.opens = none) (hans : σ.answer = none) :
    Linear dep cfg policy (ts ++ [σ]) h limiter l r where
  seq := hl.seq
  samePolicy := hl.samePolicy
  slots := hl.slots
  calls := hl.calls_frame .spawn
  placed m τ hm := by
    rcases Lts.getElem?_snoc.mp hm with hm | ⟨hlast, rfl⟩
    · exact (hl.placed m τ hm).frame .spawn (fun _ _ => rfl) (fun _ hx => hx) fun hmem => hmem
    · refine ⟨fun a ha => ?_, fun x hx => ?_, fun _ _ hmem => ?_⟩
      · rw [hopens] at ha
        cases ha
      · rw [hans] at hx
        cases hx
      · obtain ⟨x, hx, rfl⟩ := List.mem_map.mp hmem
        obtain ⟨_, hget, -⟩ := hl.calls x hx
        exact absurd (List.getElem?_eq_some_iff.mp hget).1 hlast.ge.not_gt
  settled id hid := hl.settled id fun τ hτ => hid τ (List.mem_append_left _ hτ)
  ahead τ hτ a ha := by
    rcases List.mem_append.mp hτ with hτ | hτ
    · exact hl.ahead τ hτ a ha
    · rw [List.mem_singleton.mp hτ, hopens] at ha
      cases ha
  limiter := by
    rw [show owed dep cfg policy (ts ++ [σ]) = owed dep cfg policy ts from funext (owed_spawn hopens)]
    exact hl.limiter

/-- One call moves: it has its place in the order, which got longer at most by
this call, and what the other calls rely on is as it was. -/
theorem Linear.move (hl : Linear dep cfg policy ts h limiter l r) {l' : List (Item Op Answer)}
    (hn : ts[n]? = some τ) (hop : τ'.op = τ.op)
    (hseq : Sequential (exec dep cfg) (createRound policy cfg.maxPendingRequests cfg.collectVoters) l' r')
    (hpolicy : r'.policy = r.policy) (hslots : SlotsOK cfg r') (hsub : ∀ x ∈ l, x ∈ l')
    (hnew : ∀ x ∈ l', x ∈ l ∨ x.call = n ∧ τ.op = some x.op)
    (hmine : Placed dep cfg policy (ts.set n τ') h' l' n τ')
    (hothers : ∀ (m : Nat) (σ : Trace) (a : Arg), m ≠ n → ts[m]? = some σ → σ.opens = some a →
      h'.view a.id = h.view a.id ∧ r'.view a.id = r.view a.id)
    (hsettled : ∀ id, (∀ a, τ'.opens = some a → a.id ≠ id) →
      ((∀ a, τ.opens = some a → a.id ≠ id) → r.view id = h.view id) → r'.view id = h'.view id)
    (hahead : ∀ a, τ'.opens = some a → r'.view a.id = (opening dep cfg policy a (h'.view a.id)).1)
    (hlim : Ahead (owed dep cfg policy (ts.set n τ')) limiter' r'.limiter) :
    Linear dep cfg policy (ts.set n τ') h' limiter' l' r' := by
  have hops : SameOps ts (ts.set n τ') := .set hn hop
  have hself : (ts.set n τ')[n]? = some τ' := List.getElem?_set_self (List.getElem?_eq_some_iff.mp hn).1
  have hother : ∀ {m : Nat}, m ≠ n → (ts.set n τ')[m]? = ts[m]? := fun hmn => List.getElem?_set_ne (Ne.symm hmn)
  refine ⟨hseq, hpolicy.trans hl.samePolicy, hslots, fun x hx => ?_, fun m σ hm => ?_, fun id hid => ?_,
    fun σ hσ a ha => ?_, hlim⟩
  · rcases hnew x hx with hx | ⟨rfl, hxop⟩
    · exact hl.calls_frame hops x hx
    · exact ⟨τ', hself, hop.trans hxop⟩
  · by_cases hmn : m = n
    · subst hmn
      obtain rfl : τ' = σ := Option.some.inj (hself.symm.trans hm)
      exact hmine
    · rw [hother hmn] at hm
      refine (hl.placed m σ hm).frame hops (fun a ha => (hothers m σ a hmn hm ha).1) hsub fun hmem => ?_
      obtain ⟨x, hx, rfl⟩ := List.mem_map.mp hmem
      rcases hnew x hx with hx | ⟨heq, -⟩
      · exact List.mem_map_of_mem hx
      · exact absurd heq hmn
  · refine hsettled id (hid τ' (List.mem_of_getElem? hself)) fun hτ => hl.settled id fun σ hσ a ha => ?_
    obtain ⟨m, hm⟩ := List.getElem?_of_mem hσ
    by_cases hmn : m = n
    · subst hmn
      obtain rfl : τ = σ := Option.some.inj (hn.symm.trans hm)
      exact hτ a ha
    · exact hid σ (List.mem_of_getElem? ((hother hmn).trans hm)) a ha
  · obtain ⟨m, hm⟩ := List.getElem?_of_mem hσ
    by_cases hmn : m = n
    · subst hmn
      obtain rfl : τ' = σ := Option.some.inj (hself.symm.trans hm)
      exact hahead a ha
    · rw [hother hmn] at hm
      obtain ⟨hh, hr⟩ := hothers m σ a hmn hm ha
      rw [hh, hr]
      exact hl.ahead σ (List.mem_of_getElem? hm) a ha

theorem mem_snoc_new {op : Op} {x : Answer} (hop : τ.op = some op) :
    ∀ y ∈ l ++ [(⟨n, op, x⟩ : Item Op Answer)], y ∈ l ∨ y.call = n ∧ τ.op = some y.op := by
  intro y hy
  rcases List.mem_append.mp hy with hy | hy
  · exact .inl hy
  · rw [List.mem_singleton.mp hy]
    exact .inr ⟨rfl, hop⟩

theorem Linear.now (hl : Linear dep cfg policy ts h limiter l r) {op : Op} {x : Answer} (hn : ts[n]? = some τ)
    (hτ : τ.op = some op ∧ τ.opens = none ∧ τ.answer = none)
    (hτ' : τ'.op = some op ∧ τ'.opens = none ∧ τ'.answer = some x)
    (hexec : exec dep cfg r op = some (r', x)) (hpolicy : r'.policy = r.policy) (hslots : SlotsOK cfg r')
    (hsettled : ∀ id, r.view id = h.view id → r'.view id = h'.view id)
    (hothers : ∀ (m : Nat) (σ : Trace) (a : Arg), m ≠ n → ts[m]? = some σ → σ.opens = some a →
      h'.view a.id = h.view a.id ∧ r'.view a.id = r.view a.id)
    (hlim : Ahead (owed dep cfg policy ts) limiter' r'.limiter) :
    Linear dep cfg policy (ts.set n τ') h' limiter' (l ++ [⟨n, op, x⟩]) r' := by
  have hbefore : n ∉ l.map Item.call := (hl.placed n τ hn).before hτ.2.1 hτ.2.2
  refine hl.move hn (hτ'.1.trans hτ.1.symm) (hl.seq.snoc hbefore hexec) hpolicy hslots
    (fun _ => List.mem_append_left _) (mem_snoc_new hτ.1) ⟨?_, ?_, ?_⟩ hothers (fun id _ hid => ?_) ?_ ?_
  · simp [hτ'.2.1]
  · rintro y hy
    obtain rfl : x = y := Option.some.inj (hτ'.2.2.symm.trans hy)
    exact .inl ⟨op, hτ'.1, List.mem_append_right _ (List.mem_singleton.mpr rfl)⟩
  · simp [hτ'.2.2]
  · exact hsettled id (hid (by simp [hτ.2.1]))
  · simp [hτ'.2.1]
  · rw [owed_set_none hn hτ.2.1 hτ'.2.1]
    exact hlim

/-- A vote reserves its slot: it takes effect, and the round gets ahead. -/
theorem Linear.reserve (hl : Linear dep cfg policy ts h limiter l r) (hn : ts[n]? = some τ)
    (hτ : τ.op = some (.vote a) ∧ τ.opens = none ∧ τ.answer = none)
    (hτ' : τ'.op = some (.vote a) ∧ τ'.opens = some a ∧ τ'.answer = none)
    (hcast : r.castVote dep cfg a.hash a.call a.clock = (r', (opening dep cfg policy a (h.view a.id)).2))
    (heff : Effected r a.id (opening dep cfg policy a (h.view a.id)).1 r'.limiter r')
    (hfree : ∀ (m : Nat) (σ : Trace) (a' : Arg), m ≠ n → ts[m]? = some σ → σ.opens = some a' → a'.id ≠ a.id)
    (hlim : Ahead (owed dep cfg policy (ts.set n τ')) limiter' r'.limiter) :
    Linear dep cfg policy (ts.set n τ') h limiter'
      (l ++ [⟨n, .vote a, .voted (opening dep cfg policy a (h.view a.id)).2⟩]) r' := by
  have hbefore : n ∉ l.map Item.call := (hl.placed n τ hn).before hτ.2.1 hτ.2.2
  have hexec : exec dep cfg r (.vote a) = some (r', .voted (opening dep cfg policy a (h.view a.id)).2) := by
    rw [exec, hcast]
  have hmine : ∀ {a'}, τ'.opens = some a' → a = a' := fun ha => Option.some.inj (hτ'.2.1.symm.trans ha)
  refine hl.move hn (hτ'.1.trans hτ.1.symm) (hl.seq.snoc hbefore hexec) heff.policy (hl.slots.castVote hcast)
    (fun _ => List.mem_append_left _) (mem_snoc_new hτ.1) ⟨fun a' ha => ?_, ?_, ?_⟩
    (fun m σ a' hmn hm ha => ⟨rfl, ?_⟩) (fun id hid hset => ?_) (fun a' ha => ?_) hlim
  · obtain rfl := hmine ha
    exact List.mem_append_right _ (List.mem_singleton.mpr rfl)
  · simp [hτ'.2.2]
  · simp [hτ'.2.1]
  · rw [heff.view, if_neg (hfree m σ a' hmn hm ha)]
  · rw [heff.view id, if_neg (Ne.symm (hid a hτ'.2.1))]
    exact hset (by simp [hτ.2.1])
  · obtain rfl := hmine ha
    rw [heff.view, if_pos rfl]

/-- A vote that was opening a box has done so, or failed: the state catches
up. -/
theorem Linear.settle (hl : Linear dep cfg policy ts h limiter l r) (hn : ts[n]? = some τ)
    (hτ : τ.op = some (.vote a) ∧ τ.opens = some a)
    (hτ' : τ'.op = some (.vote a) ∧ τ'.opens = none ∧
      τ'.answer = some (.voted (opening dep cfg policy a (h.view a.id)).2))
    (hview : ∀ id, h'.view id = if id = a.id then (opening dep cfg policy a (h.view a.id)).1 else h.view id)
    (hfree : ∀ (m : Nat) (σ : Trace) (a' : Arg), m ≠ n → ts[m]? = some σ → σ.opens = some a' → a'.id ≠ a.id)
    (hlim : Ahead (owed dep cfg policy (ts.set n τ')) limiter' r.limiter) :
    Linear dep cfg policy (ts.set n τ') h' limiter' l r := by
  refine hl.move hn (hτ'.1.trans hτ.1.symm) hl.seq rfl hl.slots (fun _ hx => hx) (fun _ hx => .inl hx)
    ⟨?_, fun x hx => ?_, ?_⟩ (fun m σ a' hmn hm ha => ⟨?_, rfl⟩) (fun id _ hset => ?_) ?_ hlim
  · simp [hτ'.2.1]
  · obtain rfl := Option.some.inj (hτ'.2.2.symm.trans hx)
    exact .inl ⟨.vote a, hτ'.1, (hl.placed n τ hn).opening a hτ.2⟩
  · simp [hτ'.2.2]
  · rw [hview, if_neg (hfree m σ a' hmn hm ha)]
  · rw [hview id]
    split
    next heq => rw [heq, hl.ahead τ (List.mem_of_getElem? hn) a hτ.2]
    next hne =>
      refine hset fun a' ha => ?_
      obtain rfl : a = a' := Option.some.inj (hτ.2.symm.trans ha)
      exact Ne.symm hne
  · simp [hτ'.2.1]

theorem Linear.inVain (hl : Linear dep cfg policy ts h limiter l r) (hn : ts[n]? = some τ)
    (hτ : τ.opens = none ∧ τ.answer = none) (hop : τ'.op = τ.op) (hopens : τ'.opens = none)
    (hvain : RefusedInVain dep cfg policy (ts.set n τ') τ') : Linear dep cfg policy (ts.set n τ') h limiter l r := by
  refine hl.move hn hop hl.seq rfl hl.slots (fun _ hx => hx) (fun _ hx => .inl hx) ⟨?_, fun x hx => ?_, ?_⟩
    (fun _ _ _ _ _ _ => ⟨rfl, rfl⟩) (fun id _ hset => hset (by simp [hτ.1])) ?_ ?_
  · simp [hopens]
  · exact .inr ⟨(hl.placed n τ hn).before hτ.1 hτ.2, hvain⟩
  · simp [hvain.1]
  · simp [hopens]
  · rw [owed_set_none hn hτ.1 hopens]
    exact hl.limiter

end Rules

section Steps

variable {dep : Deps} {cfg : Config} {policy : SigningPolicy} {s s' : State} {l : List (Item Op Answer)} {r : Round}
  {n : Nat} {t t' : Thread} {a : Arg}

/-! ## Calls and locks -/

theorem traces_of_thread (hn : s.threads[n]? = some t) : s.traces[n]? = some t.trace := by
  rw [State.traces, List.getElem?_map, hn]
  rfl

theorem thread_of_trace {σ : Trace} (hn : s.traces[n]? = some σ) : ∃ t, s.threads[n]? = some t ∧ t.trace = σ := by
  rw [State.traces, List.getElem?_map] at hn
  exact Option.map_eq_some_iff.mp hn

theorem traces_set : (s.set n t').traces = s.traces.set n t'.trace := List.map_set

theorem traces_spawn : ({ s with threads := s.threads ++ [t] } : State).traces = s.traces ++ [t.trace] :=
  List.map_append

/-- A move that takes or releases locks changes no trace. -/
theorem Quiet.trace (hq : Quiet dep cfg policy s t t') : t'.trace = t.trace := by
  cases hq with
  | addVote hq => cases hq <;> rfl
  | scheduleEnd hq => cases hq <;> rfl
  | statuses hq => rfl

theorem Thread.opens_cases (h : t.trace.opens = some a) :
    ∃ against ref?, t = .addVote a against (.reserved ref?) ∨ ∃ box, t = .addVote a against (.opened ref? box) := by
  cases t with
  | addVote a' against pc =>
    cases pc with
    | reserved ref? => cases h; exact ⟨against, ref?, .inl rfl⟩
    | opened ref? box => cases h; exact ⟨against, ref?, .inr ⟨box, rfl⟩⟩
    | _ => cases h
  | scheduleEnd => cases h
  | statuses => cases h

/-- While a goroutine has the lock of an ID no other one is opening a box
there. -/
theorem Guarded.no_opener (hg : Guarded dep cfg policy s) {id : Hash} {ref? : Option Nat}
    (hn : s.threads[n]? = some t) (hslot : s.heap.Slot id ref?) (hh : t.stance.holds (slotLock ref?).1) (m : Nat)
    (σ : Trace) (a : Arg) (hmn : m ≠ n) (hm : s.traces[m]? = some σ) (ha : σ.opens = some a) : a.id ≠ id := by
  rintro rfl
  obtain ⟨u, hu, rfl⟩ := thread_of_trace hm
  obtain ⟨against, ref?', hcases⟩ := Thread.opens_cases ha
  have hslot' : u.slot? = some (a, ref?') := by
    rcases hcases with rfl | ⟨box, rfl⟩ <;> rfl
  exact hmn (hg.alone hu hslot' hn hslot hh)

theorem Guarded.no_opener_slot (hg : Guarded dep cfg policy s) {ref? : Option Nat} (hn : s.threads[n]? = some t)
    (ht : t.slot? = some (a, ref?)) (m : Nat) (σ : Trace) (a' : Arg) (hmn : m ≠ n) (hm : s.traces[m]? = some σ)
    (ha : σ.opens = some a') : a'.id ≠ a.id := by
  refine hg.no_opener hn (Thread.slot?_slot ht (hg.knows n t hn))
    (RwMutex.Stance.holds_of_mem (m := (slotLock ref?).2) ?_)
    m σ a' hmn hm ha
  exact Thread.slot?_holds ht

/-- An ID that no other call is opening a box for is as in the round. -/
theorem Linear.view_eq (hl : Linear dep cfg policy s.traces s.heap s.limiter l r) {id : Hash}
    (hn : s.threads[n]? = some t) (hopens : t.trace.opens = none)
    (hfree : ∀ (m : Nat) (σ : Trace) (a : Arg), m ≠ n → s.traces[m]? = some σ → σ.opens = some a → a.id ≠ id) :
    r.view id = s.heap.view id := by
  refine hl.settled id fun σ hσ a ha => ?_
  obtain ⟨m, hm⟩ := List.getElem?_of_mem hσ
  by_cases hmn : m = n
  · subst hmn
    rw [Option.some.inj (hm.symm.trans (traces_of_thread hn)), hopens] at ha
    cases ha
  · exact hfree m σ a hmn hm ha

theorem giveUp_result {e : VoteErr} (ref? : Option Nat) : (VotePc.giveUp e ref?).result? = some (.error e) := by
  cases ref? <;> rfl

theorem giveUp_opens {e : VoteErr} (ref? : Option Nat) : (VotePc.giveUp e ref?).opens = false := by
  cases ref? <;> rfl

theorem giveUp_trace {against : List Nat} {e : VoteErr} (ref? : Option Nat) :
    (Thread.addVote a against (.giveUp e ref?)).trace = ⟨some (.vote a), none, some (.voted (.error e)), against⟩ := by
  simp [Thread.trace, giveUp_result, giveUp_opens]

theorem Linear.refused (hl : Linear dep cfg policy s.traces s.heap s.limiter l r) {against against' : List Nat}
    {ref? : Option Nat} {e : VoteErr} (hn : s.threads[n]? = some (.addVote a against (.heldBoxes ref?)))
    (hcast : r.castVote dep cfg a.hash a.call a.clock = (r, .error e)) :
    Linear dep cfg policy (s.set n (.addVote a against' (.giveUp e ref?))).traces s.heap s.limiter
      (l ++ [⟨n, .vote a, .voted (.error e)⟩]) r := by
  rw [traces_set, giveUp_trace]
  refine hl.now (traces_of_thread hn) ⟨rfl, rfl, rfl⟩ ⟨rfl, rfl, rfl⟩ ?_ rfl hl.slots (fun _ h => h)
    (fun _ _ _ _ _ _ => ⟨rfl, rfl⟩) hl.limiter
  rw [exec, hcast]

/-- A slot that is owed is had by a call that is opening a box. -/
theorem exists_reserving {p : Address} (hpos : 0 < owed dep cfg policy s.traces p) :
    ∃ m ∈ s.reserving p, ∃ σ a, s.traces[m]? = some σ ∧ σ.op = some (.vote a) ∧ σ.opens = some a ∧
      a.call.signer = p ∧ givesBack dep cfg policy a = true := by
  obtain ⟨σ, hσ, howes⟩ := List.countP_pos_iff.mp hpos
  obtain ⟨a, ha, hboth⟩ := (Option.any_eq_true _ _).mp howes
  simp only [Bool.and_eq_true, decide_eq_true_eq] at hboth
  obtain ⟨hsigner, hback⟩ := hboth
  obtain ⟨m, hm⟩ := List.getElem?_of_mem hσ
  obtain ⟨u, hu, rfl⟩ := thread_of_trace hm
  have hreserves : u.reserves p = true ∧ u.trace.op = some (.vote a) := by
    obtain ⟨against, ref?, rfl | ⟨box, rfl⟩⟩ := Thread.opens_cases ha
    · exact ⟨decide_eq_true hsigner, rfl⟩
    · exact ⟨decide_eq_true hsigner, rfl⟩
  refine ⟨m, List.mem_filter.mpr ⟨List.mem_range.mpr (List.getElem?_eq_some_iff.mp hu).1, ?_⟩, u.trace, a,
    traces_of_thread hu, hreserves.2, ha, hsigner, hback⟩
  rw [hu]
  exact hreserves.1

/-- The limiter refuses a vote: as in the round, or in vain. -/
theorem Linear.full (hl : Linear dep cfg policy s.traces s.heap s.limiter l r) {against : List Nat}
    {ref? : Option Nat} {e : LimiterErr} (hn : s.threads[n]? = some (.addVote a against (.heldBoxes ref?)))
    (hno : r.box? a.id a.hash = none) (hearly : ¬ Early a) (hinc : s.limiter.increment a.call.signer = .error e) :
    ∃ l', Linear dep cfg policy (s.set n (.addVote a (s.reserving a.call.signer) (.giveUp (.limiter e) ref?))).traces
      s.heap s.limiter l' r := by
  rcases hl.limiter.increment_error hinc with hinc | ⟨rfl, hpos⟩
  · exact ⟨_, hl.refused hn (castVote_full hno hearly hinc)⟩
  · refine ⟨l, ?_⟩
    obtain ⟨m, hm, σ, a', hσ, hop, hopens, hsigner, hback⟩ := exists_reserving hpos
    have hmn : n ≠ m := by
      rintro rfl
      rw [traces_of_thread hn] at hσ
      cases hσ
      cases hopens
    rw [traces_set, giveUp_trace]
    refine hl.inVain (traces_of_thread hn) ⟨rfl, rfl⟩ rfl rfl ⟨rfl, a, m, σ, a', rfl, hm, ?_, hop, hsigner, hback⟩
    rw [List.getElem?_set_ne hmn, hσ]

theorem Linear.reserved (hl : Linear dep cfg policy s.traces s.heap s.limiter l r) (hg : Guarded dep cfg policy s)
    {against : List Nat} {ref? : Option Nat} {limiter : Limiter}
    (hn : s.threads[n]? = some (.addVote a against (.heldBoxes ref?))) (hview : r.view a.id = s.heap.view a.id)
    (hno : r.box? a.id a.hash = none) (hearly : ¬ Early a) (hinc : s.limiter.increment a.call.signer = .ok limiter) :
    ∃ l' r', Linear dep cfg policy (s.set n (.addVote a against (.reserved ref?))).traces s.heap limiter l' r' := by
  obtain ⟨y, hy, hahead⟩ := hl.limiter.increment hinc
  obtain ⟨r', hcast, heff⟩ := castVote_opening dep cfg hno hearly hy
  rw [hl.samePolicy, hview] at hcast heff
  have howed : ∀ p, owed dep cfg policy (s.traces.set n (Thread.addVote a against (.reserved ref?)).trace) p = _ :=
    owed_opens (traces_of_thread hn) rfl rfl
  have hlim : Ahead (owed dep cfg policy (s.traces.set n (Thread.addVote a against (.reserved ref?)).trace))
      limiter r'.limiter := by
    rw [heff.limiter]
    cases hback : givesBack dep cfg policy a with
    | true =>
      refine hahead.early ?_ fun p => by rw [howed p, hback, if_pos rfl]
      have hheld := hl.limiter.held a.call.signer
      rw [(Limiter.increment_ok hinc).pending a.call.signer, if_pos rfl]
      omega
    | false =>
      refine hahead.congr fun p => ?_
      rw [howed p, hback]
      rfl
  have hl' := hl.reserve (traces_of_thread hn) ⟨rfl, rfl, rfl⟩ ⟨rfl, rfl, rfl⟩ hcast ⟨heff.policy, rfl, heff.view⟩
    (hg.no_opener_slot hn rfl) hlim
  exact ⟨_, r', traces_set ▸ hl'⟩

/-- A vote that was opening a box is done with it, as was foreseen. -/
theorem Linear.opened (hl : Linear dep cfg policy s.traces s.heap s.limiter l r) (hg : Guarded dep cfg policy s)
    {against : List Nat} {ref? : Option Nat} {h' : Heap} {limiter' : Limiter} {v : View} {res : Except VoteErr Voted}
    (hn : s.threads[n]? = some t) (hslot : t.slot? = some (a, ref?))
    (ht : t.trace = ⟨some (.vote a), some a, none, against⟩)
    (hopening : opening dep cfg policy a (s.heap.view a.id) = (v, res))
    (hview : ∀ id, h'.view id = if id = a.id then v else s.heap.view id)
    (hlim : limiter' = if givesBack dep cfg policy a then s.limiter.decrement a.call.signer else s.limiter) :
    Linear dep cfg policy (s.traces.set n ⟨some (.vote a), none, some (.voted res), against⟩) h' limiter' l r := by
  have hτ := traces_of_thread hn
  rw [ht] at hτ
  refine hl.settle hτ ⟨rfl, rfl⟩ ⟨rfl, rfl, by rw [hopening]⟩ (by rw [hopening]; exact hview)
    (hg.no_opener_slot hn hslot) ?_
  have howed : ∀ p, owed dep cfg policy s.traces p =
      owed dep cfg policy (s.traces.set n ⟨some (.vote a), none, some (.voted res), against⟩) p + _ :=
    owed_closes hτ rfl rfl
  rw [hlim]
  cases hback : givesBack dep cfg policy a with
  | true => exact hl.limiter.late fun p => by rw [howed p, hback, if_pos rfl]
  | false =>
    refine hl.limiter.congr fun p => ?_
    rw [howed p, hback]
    rfl

theorem view_same (h : Heap) (id' id : Hash) : h.view id = if id = id' then h.view id' else h.view id := by
  split
  next heq => rw [heq]
  next => rfl

theorem Linear.buildFailed (hl : Linear dep cfg policy s.traces s.heap s.limiter l r) (hg : Guarded dep cfg policy s)
    {against : List Nat} {ref? : Option Nat} {e : VoteErr}
    (hn : s.threads[n]? = some (.addVote a against (.reserved ref?)))
    (hbuild : buildVoteBox dep cfg policy a.call a.clock.build = .error e) :
    Linear dep cfg policy (s.set n (.addVote a against (.giveUp e ref?))).traces s.heap
      (s.limiter.decrement a.call.signer) l r := by
  rw [traces_set, giveUp_trace]
  refine hl.opened hg hn rfl rfl ?_ (view_same s.heap a.id) ?_
  · simp only [opening, hbuild]
  · simp [givesBack, hbuild]

section FirstVote

variable {against : List Nat} {ref? : Option Nat} {box box' : VoteBox} {fin : Hash} {res : Except VoteErr Voted}

/-- What the first vote on a new box will do is known from the view of its
ID. -/
theorem Guarded.first_vote (hg : Guarded dep cfg policy s)
    (hn : s.threads[n]? = some (.addVote a against (.opened ref? box)))
    (heff : voteEffect dep policy a false box (s.heap.slotFinalizedHash ref?) = (box', fin, res)) :
    voteEffect dep policy a false box (s.heap.view a.id).finalizedHash = (box', fin, res) ∧
      givesBack dep cfg policy a = releases res := by
  obtain ⟨hslot, -, hbuild⟩ := hg.knows _ _ hn
  rw [hg.heap.slotFinalizedHash_eq hslot] at heff
  refine ⟨heff, ?_⟩
  rw [givesBack, hbuild]
  exact (releases_voteEffect 0 (s.heap.finalizedHash a.id)).trans (congrArg (fun x => releases x.2.2) heff)

theorem Linear.firstFailed (hl : Linear dep cfg policy s.traces s.heap s.limiter l r) (hg : Guarded dep cfg policy s)
    {e : VoteErr} (hn : s.threads[n]? = some (.addVote a against (.opened ref? box)))
    (heff : voteEffect dep policy a false box (s.heap.slotFinalizedHash ref?) = (box', fin, .error e)) :
    Linear dep cfg policy (s.set n (.addVote a against (.giveUp e ref?))).traces s.heap s.limiter l r := by
  obtain ⟨hfirst, hback⟩ := hg.first_vote hn heff
  obtain ⟨-, -, hbuild⟩ := hg.knows _ _ hn
  rw [traces_set, giveUp_trace]
  refine hl.opened hg hn rfl rfl ?_ (view_same s.heap a.id) ?_
  · simp only [opening, hbuild, hfirst]
  · rw [hback]
    rfl

theorem Linear.published (hl : Linear dep cfg policy s.traces s.heap s.limiter l r) (hg : Guarded dep cfg policy s)
    {voted : Voted} {b ref : Nat} (hn : s.threads[n]? = some (.addVote a against (.opened ref? box)))
    (heff : voteEffect dep policy a false box (s.heap.slotFinalizedHash ref?) = (box', fin, .ok voted)) :
    Linear dep cfg policy
      ((s.threads.set n (.addVote a against (.unlockBox ref b ref?.isNone (.ok voted))) ++
        [Thread.scheduleEnd a.id a.hash ref b .sleeping]).map Thread.trace)
      (s.heap.publish ref? a.id a.hash box' fin)
      (if voted.reached then s.limiter.decrement box'.proposer else s.limiter) l r := by
  obtain ⟨hfirst, hback⟩ := hg.first_vote hn heff
  obtain ⟨hslot, hno, hbuild⟩ := hg.knows _ _ hn
  have hproposer : box'.proposer = a.call.signer := (voteEffect_proposer heff).trans (buildVoteBox_ok hbuild).proposer
  rw [List.map_append, List.map_set]
  refine Linear.spawn (hl.opened hg hn rfl rfl ?_ (hg.heap.view_publish hslot hno) ?_) rfl rfl
  · simp only [opening, hbuild, hfirst]
  · rw [hback, hproposer]
    rfl

end FirstVote

section StoredBox

variable {against : List Nat} {id hash : Hash} {ref b : Nat} {c : BoxesCell} {d : BoxCell} {box : VoteBox} {fin : Hash}
  {res : Except VoteErr Voted}

/-- The box of a goroutine that has it locked, in the round. -/
theorem Linear.stored_box (hl : Linear dep cfg policy s.traces s.heap s.limiter l r) (hg : Guarded dep cfg policy s)
    (hn : s.threads[n]? = some t) (hopens : t.trace.opens = none) (hh : t.stance.holds (.boxes ref))
    (hfor : s.heap.IsFor ref id) (hbox : s.heap.IsBox b id hash) (hc : s.heap.voteBoxes[ref]? = some c)
    (hd : s.heap.voteBox[b]? = some d) :
    r.view id = s.heap.view id ∧ r.box? id hash = some d.box ∧ r.finalizedHash id = c.finalizedHash := by
  have hview : r.view id = s.heap.view id :=
    hl.view_eq hn hopens (hg.no_opener hn (show s.heap.Slot id (some ref) from hfor) hh)
  have hget : s.heap.box? id hash = some d.box := by
    obtain ⟨d', hd', rfl, rfl⟩ := hbox
    obtain rfl : d = d' := Option.some.inj (hd.symm.trans hd')
    exact hg.heap.box?_iff.mpr ⟨b, hd⟩
  have hfin : s.heap.finalizedHash id = c.finalizedHash := by
    obtain ⟨c', hc', rfl⟩ := hfor
    obtain rfl : c = c' := Option.some.inj (hc.symm.trans hc')
    exact hg.heap.finalizedHash_eq hc
  exact ⟨hview, (congrFun (congrArg View.box? hview) hash).trans hget, (congrArg View.finalizedHash hview).trans hfin⟩

/-- A write to a locked box, in the round and in memory. -/
theorem Linear.wrote (hl : Linear dep cfg policy s.traces s.heap s.limiter l r) (hg : Guarded dep cfg policy s)
    {τ' : Trace} {op : Op} {x : Answer} {r' : Round} {limiter' : Limiter}
    (hn : s.threads[n]? = some t) (hh : t.stance.holds (.boxes ref))
    (hfor : s.heap.IsFor ref id) (hbox : s.heap.IsBox b id hash)
    (hτ : t.trace.op = some op ∧ t.trace.opens = none ∧ t.trace.answer = none)
    (hτ' : τ'.op = some op ∧ τ'.opens = none ∧ τ'.answer = some x)
    (hexec : exec dep cfg r op = some (r', x)) (hslots : SlotsOK cfg r')
    (heff : Effected r id ((r.view id).put hash box fin) r'.limiter r')
    (hlim : Ahead (owed dep cfg policy s.traces) limiter' r'.limiter) :
    Linear dep cfg policy (s.traces.set n τ') (s.heap.write ref b box fin) limiter' (l ++ [⟨n, op, x⟩]) r' := by
  have hfree := hg.no_opener hn (show s.heap.Slot id (some ref) from hfor) hh
  have hview : ∀ id', (s.heap.write ref b box fin).view id' = _ := hg.heap.view_write hfor hbox
  refine hl.now (traces_of_thread hn) hτ hτ' hexec heff.policy hslots (fun id' hid => ?_)
    (fun m σ a hmn hm ha => ?_) hlim
  · rw [heff.view, hview]
    split
    next heq => rw [← heq, hid]
    next => exact hid
  · have hne := hfree m σ a hmn hm ha
    rw [heff.view, hview, if_neg hne, if_neg hne]
    exact ⟨rfl, rfl⟩

theorem Linear.voted (hl : Linear dep cfg policy s.traces s.heap s.limiter l r) (hg : Guarded dep cfg policy s)
    (hn : s.threads[n]? = some (.addVote a against (.heldBox ref b))) (hc : s.heap.voteBoxes[ref]? = some c)
    (hd : s.heap.voteBox[b]? = some d)
    (heff : voteEffect dep policy a true d.box c.finalizedHash = (box, fin, res)) :
    ∃ l' r', Linear dep cfg policy (s.set n (.addVote a against (.unlockBox ref b false res))).traces
      (s.heap.write ref b box fin) (if releases res then s.limiter.decrement box.proposer else s.limiter) l' r' := by
  obtain ⟨hfor, hbox⟩ := hg.knows _ _ hn
  have hh : (Thread.addVote a against (.heldBox ref b)).stance.holds (.boxes ref) :=
    .inr (List.mem_cons.mpr (.inl rfl))
  obtain ⟨-, hget, hfin⟩ := hl.stored_box hg hn rfl hh hfor hbox hc hd
  rw [← hfin, ← hl.samePolicy] at heff
  obtain ⟨r', hcast, heffected⟩ : ∃ r', r.castVote dep cfg a.hash a.call a.clock = (r', res) ∧ _ :=
    castVote_stored hget heff
  refine ⟨_, r', traces_set ▸ hl.wrote hg hn hh hfor hbox ⟨rfl, rfl, rfl⟩ ⟨rfl, rfl, rfl⟩ ?_ (hl.slots.castVote hcast)
    ⟨heffected.policy, rfl, heffected.view⟩ ?_⟩
  · rw [exec, hcast]
  · rw [heffected.limiter]
    cases hrel : releases res with
    | false => exact hl.limiter
    | true =>
      -- the slot of the finalized box is in the pending count of the round
      rcases voteEffect_cases heff with ⟨e, rfl, -⟩ | ⟨voted, rfl, hdel, hcaston⟩
      · cases hrel
      · have hrec : Recorded a.call a.clock d.box true box := by
          have hreached : voted.reached = true := hrel
          exact hreached ▸ castOn_ok hcaston
        have ht : Target dep cfg r a.hash a.call a.clock r d.box true := .stored hget hdel
        exact hl.limiter.both (hrec.proposer ▸ (ht.released hl.slots.held hrec).1)

theorem Linear.expired (hl : Linear dep cfg policy s.traces s.heap s.limiter l r) (hg : Guarded dep cfg policy s)
    (hn : s.threads[n]? = some (.scheduleEnd id hash ref b .heldBox)) (hc : s.heap.voteBoxes[ref]? = some c)
    (hd : s.heap.voteBox[b]? = some d) :
    ∃ l' r', Linear dep cfg policy
      (s.set n (.scheduleEnd id hash ref b (.unlockBox (d.box.endActions dep c.finalizedHash)))).traces
      (s.heap.write ref b d.box.delete c.finalizedHash) s.limiter l' r' := by
  obtain ⟨hfor, hbox⟩ := hg.knows _ _ hn
  have hh : (Thread.scheduleEnd id hash ref b .heldBox).stance.holds (.boxes ref) := .inl (List.mem_cons.mpr (.inl rfl))
  obtain ⟨-, hget, hfin⟩ := hl.stored_box hg hn rfl hh hfor hbox hc hd
  rw [← hfin]
  refine ⟨_, r.setBox id hash d.box.delete, traces_set ▸ hl.wrote hg hn hh hfor hbox ⟨rfl, rfl, rfl⟩ ⟨rfl, rfl, rfl⟩ ?_
    (hl.slots.ended hget) ⟨rfl, rfl, Round.view_setBox r id hash d.box.delete⟩ hl.limiter⟩
  simp only [exec, hget]
  rfl

end StoredBox

/-! ## Every run -/

theorem linear_step (hg : Guarded dep cfg policy s) (hl : Linear dep cfg policy s.traces s.heap s.limiter l r)
    (hs : Step dep cfg policy s s') : ∃ l' r', Linear dep cfg policy s'.traces s'.heap s'.limiter l' r' := by
  have hround : ∀ {n : Nat} {a : Arg} {against : List Nat} {ref? : Option Nat},
      s.threads[n]? = some (.addVote a against (.heldBoxes ref?)) → s.heap.slotFind ref? a.hash = none →
      r.view a.id = s.heap.view a.id ∧ r.box? a.id a.hash = none := by
    intro n a against ref? hn hfind
    have hview := hl.view_eq hn rfl (hg.no_opener_slot hn rfl)
    have hno := hg.heap.slotFind_none (hg.knows _ _ hn) hfind
    exact ⟨hview, (congrFun (congrArg View.box? hview) a.hash).trans hno⟩
  cases hs with
  | addVote a => exact ⟨l, r, traces_spawn ▸ hl.spawn rfl rfl⟩
  | statuses id => exact ⟨l, r, traces_spawn ▸ hl.spawn rfl rfl⟩
  | quiet hn hq =>
    obtain ⟨hlt, heq⟩ := List.getElem?_eq_some_iff.mp (traces_of_thread hn)
    refine ⟨l, r, ?_⟩
    rw [traces_set, hq.trace, ← heq, List.set_getElem_self hlt]
    exact hl
  | early hn hfind hearly =>
    obtain ⟨-, hno⟩ := hround hn hfind
    exact ⟨_, r, hl.refused hn (castVote_early hno hearly)⟩
  | full hn hfind hearly hinc =>
    obtain ⟨-, hno⟩ := hround hn hfind
    obtain ⟨l', hl'⟩ := hl.full hn hno hearly hinc
    exact ⟨l', r, hl'⟩
  | reserve hn hfind hearly hinc =>
    obtain ⟨hview, hno⟩ := hround hn hfind
    exact hl.reserved hg hn hview hno hearly hinc
  | buildFailed hn hbuild => exact ⟨l, r, hl.buildFailed hg hn hbuild⟩
  | firstFailed hn heff => exact ⟨l, r, hl.firstFailed hg hn heff⟩
  | publish hn heff => exact ⟨l, r, hl.published hg hn heff⟩
  | vote hn hc hd heff => exact hl.voted hg hn hc hd heff
  | expire hn hc hd => exact hl.expired hg hn hc hd

theorem linear (hr : Lts.Reach (system dep cfg policy) Lts.Free s) :
    ∃ l r, Linear dep cfg policy s.traces s.heap s.limiter l r := by
  refine hr.invariant (fun s => ∃ l r, Linear dep cfg policy s.traces s.heap s.limiter l r) ?_ ?_
  · rintro s rfl
    refine ⟨[], createRound policy cfg.maxPendingRequests cfg.collectVoters, .nil, rfl, .created policy, ?_, ?_, ?_, ?_,
      .refl (fun _ => rfl) _⟩
    · intro x hx
      cases hx
    · intro n τ hn
      cases hn
    · exact fun id _ => rfl
    · intro τ hτ
      cases hτ
  · intro s e s' hr hl _ hs
    obtain ⟨l, r, hl⟩ := hl
    exact linear_step (guarded hr) hl (step_inv hs)

end Steps

end TeeProxy.Voting.Locks
