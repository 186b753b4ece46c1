/-
What a sync may undo of the event loop's work.

A key the event loop adds after the node has produced its list is not in the
list. It survives the sync exactly when it was not cached yet at the
snapshot, which is taken only after the list has been received. A key the
event loop removes stays removed unless a proof of it is on its way: the
write of a batch does not look at what happened since the node answered.
-/
import TeeProxy.Wallets.Sync

namespace TeeProxy.Wallets

variable {op : OpPkg} {pkg : WalletPkg} {ok : State → Event → Prop}

/-! ## Keys added during a sync -/

/-- Since the list, the event loop added the key and did not remove it. -/
def AddedSince (s : State) (k : IDPair) : Prop := (k, true) ∈ s.cycle ∧ (k, false) ∉ s.cycle

instance (s : State) (k : IDPair) : Decidable (AddedSince s k) := by unfold AddedSince; infer_instance

/-- The sync of `s` took its snapshot in `s₀`, after the list `remote`: no
other sync was started since. -/
def SnappedIn (op : OpPkg) (pkg : WalletPkg) (s₀ : State) (remote : List KeyInfo) (s : State) : Prop :=
  s₀.pc = .received remote ∧ ∃ s₁, step op pkg s₀ .localKeySet = some s₁ ∧
    Lts.Later (system op pkg) (fun _ e => ∀ ok, e ≠ .triggerSync ok) s₁ s

/-- The key was cached when the snapshot was taken and is not in the list. -/
def Stale (op : OpPkg) (pkg : WalletPkg) (s : State) (k : IDPair) : Prop :=
  ∃ s₀ remote, SnappedIn op pkg s₀ remote s ∧ s₀.cache.Has k ∧ k ∉ remote.map KeyInfo.id

/-- A step within a sync keeps its view; out of a sync, only a trigger starts
one. -/
theorem Step.view {s s' : State} {e : Event} (hs : Step op pkg s e s') (he : ∀ ok, e ≠ .triggerSync ok) {v : View}
    (h : s.pc = .idle ∨ s.pc.view? = some v) : s'.pc = .idle ∨ s'.pc.view? = some v := by
  cases hs with
  | skipped | requested => exact absurd rfl (he _)
  | failed | evicted => exact .inl rfl
  | refused | acted | changed => exact h
  | answered hpc | received hpc | snapped hpc => rw [hpc] at h; rcases h with h | h <;> cases h
  | chunked hpc | proving hpc | proved hpc | fetched hpc =>
    rw [hpc] at h
    exact .inr (h.resolve_left fun hidle => by cases hidle)
  | wrote hpc hor =>
    rw [hpc] at h
    rcases hor with rfl | rfl
    · exact .inl rfl
    · exact .inr (h.resolve_left fun hidle => by cases hidle)

/-- The view of a sync is the list and the keys cached at the snapshot. -/
theorem SnappedIn.view {s₀ s : State} {remote : List KeyInfo} (h : SnappedIn op pkg s₀ remote s) :
    s.pc = .idle ∨ s.pc.view? = some ⟨remote, s₀.cache.localKeySet⟩ := by
  obtain ⟨hpc, s₁, hs, hl⟩ := h
  simp only [step, hpc, Option.some.injEq] at hs
  induction hl with
  | refl => subst hs; exact .inr rfl
  | step _ he hs' ih => exact (step_inv hs').view he ih

theorem snappedIn {s : State} (h : Lts.Reach (system op pkg) ok s) :
    ∀ v, s.pc.view? = some v → ∃ s₀ remote, SnappedIn op pkg s₀ remote s := by
  refine h.invariant (fun s => ∀ v, s.pc.view? = some v → ∃ s₀ remote, SnappedIn op pkg s₀ remote s) ?_ ?_
  · rintro s ⟨cache, node, rfl⟩ v hv
    cases hv
  intro s e s' _ ih _ hs v hv
  by_cases hsnap : e = .localKeySet
  · subst hsnap
    cases hpc : s.pc with
    | received remote => exact ⟨s, remote, hpc, s', hs, .refl⟩
    | _ => simp only [system, step, hpc] at hs; cases hs
  · have hstep := step_inv hs
    have hbefore : (∀ ok, e ≠ .triggerSync ok) ∧ (∃ v, s.pc.view? = some v) ∨ s' = s := by
      cases hstep with
      | skipped => exact .inr rfl
      | requested | failed | answered | received | evicted => cases hv
      | snapped => exact absurd rfl hsnap
      | chunked hpc | proving hpc | proved hpc | fetched hpc | wrote hpc =>
        exact .inl ⟨fun _ heq => (by cases heq), _, by rw [hpc]; rfl⟩
      | refused | acted | changed => exact .inl ⟨fun _ heq => (by cases heq), v, hv⟩
    rcases hbefore with ⟨he, v', hv'⟩ | rfl
    · obtain ⟨s₀, remote, hpc, s₁, hs₁, hl⟩ := ih v' hv'
      exact ⟨s₀, remote, hpc, s₁, hs₁, .step hl he hs⟩
    · exact ih v hv

theorem stale_iff {s : State} (h : Lts.Reach (system op pkg) ok s) {v : View} (hv : s.pc.view? = some v) {k : IDPair} :
    Stale op pkg s k ↔ k ∈ v.localAtStart ∧ k ∉ v.remote.map KeyInfo.id := by
  have hview : ∀ {s₀ remote}, SnappedIn op pkg s₀ remote s → v = ⟨remote, s₀.cache.localKeySet⟩ := by
    intro s₀ remote hsnap
    rcases hsnap.view with hidle | heq
    · rw [hidle] at hv; cases hv
    · exact Option.some.inj (hv.symm.trans heq)
  constructor
  · rintro ⟨s₀, remote, hsnap, hhas, hnot⟩
    obtain rfl := hview hsnap
    exact ⟨hhas, hnot⟩
  · rintro ⟨hlocal, hnot⟩
    obtain ⟨s₀, remote, hsnap⟩ := snappedIn h v hv
    obtain rfl := hview hsnap
    exact ⟨s₀, remote, hsnap, hlocal, hnot⟩

/-- Until the sync ends, nothing undoes an addition. -/
def Kept (s : State) : Prop := s.pc.listed = true → ∀ k, AddedSince s k → s.cache.Has k

theorem Kept.cache {s s' : State} (h : Kept s) (hpc : s'.pc.listed = true → s.pc.listed = true)
    (hcycle : s'.cycle = s.cycle) (hcache : ∀ k, s.cache.Has k → s'.cache.Has k) : Kept s' := by
  intro hl k hk
  unfold AddedSince at hk
  rw [hcycle] at hk
  exact hcache k (h (hpc hl) k hk)

theorem Kept.step {s s' : State} {e : Event} (h : Kept s) (hs : Step op pkg s e s') : Kept s' := by
  cases hs with
  | skipped | refused => exact h
  | requested | failed | evicted => intro hl; cases hl
  | answered => rintro - k ⟨hadd, -⟩; cases hadd
  | received hpc | snapped hpc | chunked hpc | proving hpc | proved hpc | fetched hpc =>
    exact h.cache (fun _ => by rw [hpc]; rfl) rfl fun _ hk => hk
  | wrote hpc => exact h.cache (fun _ => by rw [hpc]; rfl) rfl fun _ hk => Cache.has_writeBatch_of_has _ hk
  | acted => exact h.cache id rfl fun _ hk => hk
  | changed _ hu =>
    rintro hl k ⟨hadd, hdel⟩
    rw [List.mem_cons, not_or] at hdel
    cases hu with
    | added info proof =>
      rw [Cache.has_put]
      rcases List.mem_cons.mp hadd with heq | hadd
      · exact .inl (Prod.mk.inj heq).1
      · exact .inr (h hl k ⟨hadd, hdel.2⟩)
    | removed =>
      rw [Cache.has_drop]
      rcases List.mem_cons.mp hadd with heq | hadd
      · cases heq
      · exact ⟨fun heq => hdel.1 (by rw [heq]), h hl k ⟨hadd, hdel.2⟩⟩

theorem kept {s : State} (h : Lts.Reach (system op pkg) ok s) : Kept s := by
  refine h.invariant Kept ?_ fun s e s' _ ih _ hs => ih.step (step_inv hs)
  rintro s ⟨cache, node, rfl⟩ hl
  cases hl

/-- **A key added since the list is cached when the sync ends**, whichever way
it ends, exactly when the sync does not end with its eviction, or the key is
in the list, or it was not cached when the snapshot was taken. -/
theorem added_key_kept_iff {s s' : State} {e : Event} (h : Lts.Reach (system op pkg) Lts.Free s)
    (hlisted : s.pc.listed = true) (hs : (system op pkg).step s e = some s') (hend : s'.pc = .idle) {k : IDPair}
    (hk : AddedSince s k) : s'.cache.Has k ↔ ¬ (e = .removeStaleKeys ∧ Stale op pkg s k) := by
  have hhas := kept h hlisted k hk
  cases step_inv hs with
  | skipped | refused | acted | changed => rw [hend] at hlisted; cases hlisted
  | requested | answered | received | snapped | chunked | proving | proved | fetched => cases hend
  | failed hpc =>
    refine iff_of_true hhas ?_
    -- the eviction is enabled only where it does not fail
    rintro ⟨rfl, -⟩
    simp only [system, step] at hs
    cases hs
  | wrote => exact iff_of_true (Cache.has_writeBatch_of_has _ hhas) fun hstale => by cases hstale.1
  | @evicted v hpc =>
    rw [Cache.has_removeStaleKeys, stale_iff h (by rw [hpc]; rfl)]
    constructor
    · rintro ⟨-, hor⟩ ⟨-, hlocal, hremote⟩
      exact hor.elim hremote fun hnot => hnot hlocal
    · intro hnot
      refine ⟨hhas, ?_⟩
      by_contra hcon
      rw [not_or, not_not] at hcon
      exact hnot ⟨rfl, hcon.2, hcon.1⟩

/-! ## Keys removed during a sync -/

/-- The last thing the event loop did with the key is to remove it. -/
def Removed (s : State) (k : IDPair) : Prop := s.changes.find? (fun change => change.1 = k) = some (k, false)

instance (s : State) (k : IDPair) : Decidable (Removed s k) := by unfold Removed; infer_instance

/-- The keys of the proofs the node has answered with and the sync has not
written yet. -/
def unwritten (op : OpPkg) (pkg : WalletPkg) : PC → List IDPair
  | .proved _ r _ => match parseKeyProofResult op pkg r with
    | .error _ => []
    | .ok proofs => Cache.proofIDs pkg proofs
  | .writing _ proofs _ => Cache.proofIDs pkg proofs
  | _ => []

/-- The key a posted result asks to remove. -/
def removes (op : OpPkg) (pkg : WalletPkg) (s : State) (n : Nat) : Option IDPair :=
  s.posted[n]?.bind fun r => match parseUpdate op pkg r with
    | .ok (.remove id) => some id
    | _ => none

/-- The node proves no key that the event loop has removed, and the event loop
removes no key whose proof is answered and not written. -/
def Apart (op : OpPkg) (pkg : WalletPkg) (s : State) : Event → Prop
  | .answerProof r => ∀ k ∈ unwritten op pkg (.proved ⟨[], []⟩ r []), ¬ Removed s k
  | .update n => ∀ id ∈ removes op pkg s n, id ∉ unwritten op pkg s.pc
  | _ => True

instance (s : State) (e : Event) : Decidable (Apart op pkg s e) := by
  cases e <;> unfold Apart <;> infer_instance

/-- What was removed is not in the cache, and no sync will write it. -/
def StaysRemoved (op : OpPkg) (pkg : WalletPkg) (s : State) : Prop :=
  ∀ k, Removed s k → s.cache.Gone k ∧ k ∉ unwritten op pkg s.pc

theorem removed_cons {s : State} {c : Cache} {change : IDPair × Bool} {cycle : List (IDPair × Bool)} {k : IDPair}
    (h : Removed { s with cache := c, cycle, changes := change :: s.changes } k) :
    change = (k, false) ∨ change.1 ≠ k ∧ Removed s k := by
  unfold Removed at h
  by_cases hk : change.1 = k
  · rw [List.find?_cons_of_pos (by simpa using hk)] at h
    exact .inl (Option.some.inj h)
  · rw [List.find?_cons_of_neg (by simpa using hk)] at h
    exact .inr ⟨hk, h⟩

theorem StaysRemoved.step {s s' : State} {e : Event} (h : StaysRemoved op pkg s) (he : Apart op pkg s e)
    (hs : Step op pkg s e s') : StaysRemoved op pkg s' := by
  cases hs with
  | skipped | refused => exact h
  | requested | failed | answered | received | snapped | chunked | proving =>
    exact fun k hk => ⟨(h k hk).1, List.not_mem_nil⟩
  | proved => exact fun k hk => ⟨(h k hk).1, fun hmem => he k hmem hk⟩
  | fetched hpc hp =>
    intro k hk
    have hun := (h k hk).2
    rw [hpc, unwritten, hp] at hun
    exact ⟨(h k hk).1, hun⟩
  | wrote hpc hor =>
    intro k hk
    have hun := (h k hk).2
    rw [hpc] at hun
    refine ⟨(h k hk).1.writeBatch _ hun, ?_⟩
    rcases hor with rfl | rfl <;> exact List.not_mem_nil
  | evicted => exact fun k hk => ⟨(h k hk).1.removeStaleKeys _ _, List.not_mem_nil⟩
  | acted => exact h
  | changed hn hu =>
    intro k hk
    cases hu with
    | added info proof =>
      rcases removed_cons hk with heq | ⟨hne, hk⟩
      · cases heq
      · exact ⟨(h k hk).1.put (Ne.symm hne) proof, (h k hk).2⟩
    | @removed id hp =>
      rcases removed_cons hk with heq | ⟨-, hk⟩
      · cases heq
        refine ⟨Cache.gone_drop_self k, he k ?_⟩
        simp only [removes, hn, Option.bind_some, hp]
        rfl
      · exact ⟨(h k hk).1.drop id, (h k hk).2⟩

/-- **A removed key stays removed**, in every state of every run in which the
node proves no key that the event loop has removed and the event loop removes
no key whose proof is answered and not yet written: after its KEY_DELETE
result, and until a result adds it again, the key is in neither map. -/
theorem removed_key_gone {s : State} (h : Lts.Reach (system op pkg) (Apart op pkg) s) :
    ∀ k, Removed s k → k ∉ s.cache.keys.keys ∧ k.keyID ∉ s.cache.keyIDs k.walletID := by
  have hinv : StaysRemoved op pkg s := by
    refine h.invariant (StaysRemoved op pkg) ?_ fun s e s' _ ih he hs => ih.step he (step_inv hs)
    rintro s ⟨cache, node, rfl⟩ k hk
    cases hk
  exact fun k hk => (hinv k hk).1

/-! ## A small wallet -/

/-- Every byte names a key of wallet 1. -/
def WalletPkg.bytes : WalletPkg where
  unmarshalProof data := .ok ⟨data, []⟩
  unmarshalProofs data := .ok (data.map fun b => some ⟨[b], []⟩)
  unmarshalIDPair data := .ok ⟨1, (data.headD 0).toUInt64⟩
  unmarshalKeyInfos data := .ok (data.map fun b => ⟨1, b.toUInt64, 0⟩)
  decodeKeyExistence data := .ok ⟨1, (data.headD 0).toUInt64, some 0, ⟨[], 0⟩⟩

def plainResult (opType : OpType) (opCommand : OpCommand) (data : Bytes) : ActionResult :=
  ⟨0, .submit, 1, OpPkg.numbered.typeHash opType, OpPkg.numbered.commandHash opCommand, data⟩

/-- An empty cache and a node with keys. -/
def emptyState (node : List IDPair) : State := ⟨.empty, .idle, node, [], [], [], []⟩

theorem init_emptyState (node : List IDPair) : (system op pkg).init (emptyState node) := ⟨.empty, node, rfl⟩

/-- The node lists no key, then generates one. -/
def generated : List Event :=
  [.triggerSync true, .answerInfo (plainResult .get .keyInfo []), .act (plainResult .wallet .keyGenerate [7])]

/-- The event loop adds the key after the snapshot. -/
def addedAfterSnapshot : List Event := generated ++ [.receiveInfo true, .localKeySet, .update 0, .keysNeedingProof]

theorem added_key_kept_afterSnapshot :
    ∃ s s', Lts.Reach (system .numbered .bytes) Lts.Free s ∧ AddedSince s ⟨1, 7⟩ ∧
      (system .numbered .bytes).step s .removeStaleKeys = some s' ∧ s'.pc = .idle ∧ s'.cache.Has ⟨1, 7⟩ := by
  have hrun : ((system .numbered .bytes).run (emptyState []) addedAfterSnapshot).isSome := rfl
  have hreach : Lts.Reach (system .numbered .bytes) Lts.Free _ :=
    .of_run (.init (init_emptyState _)) (fun _ _ _ => trivial) (Option.some_get hrun).symm
  have hstep : ((system .numbered .bytes).step (Option.get _ hrun) .removeStaleKeys).isSome := rfl
  have hadded : AddedSince (Option.get _ hrun) ⟨1, 7⟩ := ⟨List.mem_cons_self, by rintro (_ | ⟨_, ⟨⟩⟩)⟩
  refine ⟨_, _, hreach, hadded, (Option.some_get hstep).symm, rfl, ?_⟩
  refine (added_key_kept_iff hreach rfl (Option.some_get hstep).symm rfl hadded).mpr ?_
  rintro ⟨-, hstale⟩
  cases ((stale_iff hreach rfl).mp hstale).1

/-- The event loop adds the key before the list is received. -/
def addedBeforeSnapshot : List Event :=
  generated ++ [.update 0, .receiveInfo true, .localKeySet, .keysNeedingProof, .removeStaleKeys]

/-- The node creates a key after its list, the event loop adds it while the
list is on its way, and the sync evicts it. -/
theorem added_key_evicted :
    ∃ s, Lts.Reach (system .numbered .bytes) Lts.Free s ∧ ⟨1, 7⟩ ∈ s.created ∧ ⟨1, 7⟩ ∈ s.node ∧
      AddedSince s ⟨1, 7⟩ ∧ s.pc = .idle ∧ ¬ s.cache.Has ⟨1, 7⟩ := by
  have hrun : ((system .numbered .bytes).run (emptyState []) addedBeforeSnapshot).any (fun s =>
      ⟨1, 7⟩ ∈ s.created ∧ ⟨1, 7⟩ ∈ s.node ∧ AddedSince s ⟨1, 7⟩ ∧ s.pc = .idle ∧ ¬ s.cache.Has ⟨1, 7⟩) := by
    decide +kernel
  obtain ⟨s, hs, hend⟩ := (Option.any_eq_true _ _).mp hrun
  exact ⟨s, .of_run (.init (init_emptyState _)) (fun _ _ _ => trivial) hs, of_decide_eq_true hend⟩

/-- The node has a key that is not cached: it answers with its proof. -/
def proofAnswered : List Event :=
  [.triggerSync true, .answerInfo (plainResult .get .keyInfo [7]), .receiveInfo true, .localKeySet, .keysNeedingProof,
    .request true, .answerProof (plainResult .get .keyProof [7])]

/-- The key is deleted after its proof is written. -/
def deletedAfterWrite : List Event :=
  proofAnswered ++ [.receiveProof true, .writeBatch, .act (plainResult .wallet .keyDelete [7]), .update 0]

theorem removed_key_gone_afterWrite :
    ∃ s, Lts.Reach (system .numbered .bytes) (Apart .numbered .bytes) s ∧ Removed s ⟨1, 7⟩ ∧
      ⟨1, 7⟩ ∉ s.cache.keys.keys := by
  have hrun : ((system .numbered .bytes).runIf (Apart .numbered .bytes) (emptyState [⟨1, 7⟩]) deletedAfterWrite).any
      (fun s => Removed s ⟨1, 7⟩) := by decide +kernel
  obtain ⟨s, hs, hend⟩ := (Option.any_eq_true _ _).mp hrun
  have hreach := Lts.Reach.of_runIf (.init (init_emptyState _)) hs
  exact ⟨s, hreach, of_decide_eq_true hend, (removed_key_gone hreach _ (of_decide_eq_true hend)).1⟩

/-- The key is deleted while its proof is on its way. -/
def deletedBeforeWrite : List Event :=
  proofAnswered ++ [.act (plainResult .wallet .keyDelete [7]), .update 0, .receiveProof true, .writeBatch]

/-- The node proves a key and then deletes it; the event loop removes the key,
and the batch puts it back into both maps. -/
theorem removed_key_restored :
    ∃ s, Lts.Reach (system .numbered .bytes) Lts.Free s ∧ ⟨1, 7⟩ ∉ s.node ∧ Removed s ⟨1, 7⟩ ∧
      s.cache.Has ⟨1, 7⟩ ∧ (7 : UInt64) ∈ s.cache.keyIDs 1 := by
  have hrun : ((system .numbered .bytes).run (emptyState [⟨1, 7⟩]) deletedBeforeWrite).any (fun s =>
      ⟨1, 7⟩ ∉ s.node ∧ Removed s ⟨1, 7⟩ ∧ s.cache.Has ⟨1, 7⟩ ∧ (7 : UInt64) ∈ s.cache.keyIDs 1) := by decide +kernel
  obtain ⟨s, hs, hend⟩ := (Option.any_eq_true _ _).mp hrun
  exact ⟨s, .of_run (.init (init_emptyState _)) (fun _ _ _ => trivial) hs, of_decide_eq_true hend⟩

end TeeProxy.Wallets
