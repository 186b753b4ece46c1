/-
A sync of the wallet cache next to the event loop
(`internal/service/wallets/wallets.go`).

`sync` asks the node for its keys, takes a snapshot of the cached ones, asks
for the proofs it needs batch by batch, and evicts what was cached at the
snapshot and is not in the node's list. The lock is held only inside a
single step, so the event loop applies key results between any two of them.

The node acts on keys at any time and posts a result for each action; the
event loop may see a posted result late, out of order or again.
-/
import TeeProxy.Lib.Lts
import TeeProxy.Wallets.Cache

namespace TeeProxy.Wallets

section Parse

variable (op : OpPkg) (pkg : WalletPkg)

def parseKeyInfoResult (r : ActionResult) : Except Err (List KeyInfo) :=
  if r.status ≠ 1 then .error .invalidActionResult
  else if r.opType ≠ op.typeHash .get then .error .invalidOpType
  else if r.opCommand ≠ op.commandHash .keyInfo then .error .invalidOpCommand
  else (pkg.unmarshalKeyInfos r.data).mapError .decode

def parseKeyProofResult (r : ActionResult) : Except Err (List (Option SignedProof)) :=
  if r.status ≠ 1 then .error .invalidActionResult
  else if r.opType ≠ op.typeHash .get then .error .invalidOpType
  else if r.opCommand ≠ op.commandHash .keyProof then .error .invalidOpCommand
  else (pkg.unmarshalProofs r.data).mapError .decode

end Parse

def keyProofBatchSize : Nat := 100

/-! ## The state -/

/-- The node's key list and the snapshot of the cached keys. -/
structure View where
  remote : List KeyInfo
  localAtStart : List IDPair
  deriving DecidableEq

/-- Where the sync is. `answered` and `proved` hold what the node has answered
and the sync has not received yet; `batches` what is still to be fetched. -/
inductive PC
  | idle
  | requested
  | answered (r : ActionResult)
  | received (remote : List KeyInfo)
  | snapped (v : View)
  | batches (v : View) (todo : List (List IDPair))
  | proving (v : View) (batch : List IDPair) (todo : List (List IDPair))
  | proved (v : View) (r : ActionResult) (todo : List (List IDPair))
  | writing (v : View) (proofs : List (Option SignedProof)) (todo : List (List IDPair))
  deriving DecidableEq

/-- The node has produced the key list of the running sync. -/
def PC.listed : PC → Bool
  | .idle | .requested => false
  | _ => true

/-- The list and the snapshot a sync goes by, once it has both. -/
def PC.view? : PC → Option View
  | .snapped v | .batches v _ | .proving v _ _ | .proved v _ _ | .writing v _ _ => some v
  | _ => none

/-- The cache, the sync, the node's keys and the results it has posted. Of the
past: the keys the node created and the changes the event loop made since
the node produced its last key list, and all changes, newest first. -/
structure State where
  cache : Cache
  pc : PC
  node : List IDPair
  posted : List ActionResult
  created : List IDPair
  cycle : List (IDPair × Bool)
  changes : List (IDPair × Bool)

/-- A step of a sync, of the node, or of the event loop. -/
inductive Event
  | triggerSync (ok : Bool)
  | answerInfo (r : ActionResult)
  | receiveInfo (ok : Bool)
  | localKeySet
  | keysNeedingProof
  | request (ok : Bool)
  | answerProof (r : ActionResult)
  | receiveProof (ok : Bool)
  | writeBatch
  | removeStaleKeys
  | act (r : ActionResult)
  | update (n : Nat)

section System

variable (op : OpPkg) (pkg : WalletPkg)

/-- A list names the keys the node has. -/
def lists (node : List IDPair) (r : ActionResult) : Bool :=
  match parseKeyInfoResult op pkg r with
  | .error _ => true
  | .ok infos => infos.map KeyInfo.id ⊆ node ∧ node ⊆ infos.map KeyInfo.id

/-- The proofs are for keys the node has. -/
def proves (node : List IDPair) (r : ActionResult) : Bool :=
  match parseKeyProofResult op pkg r with
  | .error _ => true
  | .ok proofs => Cache.proofIDs pkg proofs ⊆ node

/-- A failed request, wait or parse ends the sync with an error. -/
def step (s : State) : Event → Option State
  | .triggerSync ok => match s.pc with
    | .idle => if ok then some { s with pc := .requested } else some s
    | _ => some s
  | .answerInfo r => match s.pc with
    | .requested =>
      if lists op pkg s.node r then some { s with pc := .answered r, created := [], cycle := [] } else none
    | _ => none
  | .receiveInfo ok => match s.pc, ok with
    | .requested, false => some { s with pc := .idle }
    | .answered _, false => some { s with pc := .idle }
    | .answered r, true => match parseKeyInfoResult op pkg r with
      | .error _ => some { s with pc := .idle }
      | .ok remote => some { s with pc := .received remote }
    | _, _ => none
  | .localKeySet => match s.pc with
    | .received remote => some { s with pc := .snapped ⟨remote, s.cache.localKeySet⟩ }
    | _ => none
  | .keysNeedingProof => match s.pc with
    | .snapped v =>
      some { s with pc := .batches v ((s.cache.keysNeedingProof v.remote).toChunks keyProofBatchSize) }
    | _ => none
  | .request ok => match s.pc with
    | .batches v (batch :: todo) =>
      if ok then some { s with pc := .proving v batch todo } else some { s with pc := .idle }
    | _ => none
  | .answerProof r => match s.pc with
    | .proving v _ todo => if proves op pkg s.node r then some { s with pc := .proved v r todo } else none
    | _ => none
  | .receiveProof ok => match s.pc, ok with
    | .proving _ _ _, false => some { s with pc := .idle }
    | .proved _ _ _, false => some { s with pc := .idle }
    | .proved v r todo, true => match parseKeyProofResult op pkg r with
      | .error _ => some { s with pc := .idle }
      | .ok proofs => some { s with pc := .writing v proofs todo }
    | _, _ => none
  | .writeBatch => match s.pc with
    | .writing v proofs todo => match s.cache.writeBatch pkg proofs with
      | (cache, .error _) => some { s with cache, pc := .idle }
      | (cache, .ok ()) => some { s with cache, pc := .batches v todo }
    | _ => none
  | .removeStaleKeys => match s.pc with
    | .batches v [] => some { s with cache := s.cache.removeStaleKeys v.remote v.localAtStart, pc := .idle }
    | _ => none
  | .act r => match parseUpdate op pkg r with
    | .error _ => some { s with posted := s.posted ++ [r] }
    | .ok (.add info _) => some { s with
        node := info.id :: s.node.filter (· ≠ info.id)
        posted := s.posted ++ [r]
        created := info.id :: s.created }
    | .ok (.remove id) => some { s with node := s.node.filter (· ≠ id), posted := s.posted ++ [r] }
  | .update n => match s.posted[n]? with
    | none => none
    | some r => match s.cache.update op pkg r with
      | (cache, .error _) => some { s with cache }
      | (cache, .ok change) => some { s with cache, cycle := change :: s.cycle, changes := change :: s.changes }

/-- Any cache, any node, no sync running. -/
def system : Lts.System State Event where
  init s := ∃ cache node, s = ⟨cache, .idle, node, [], [], [], []⟩
  step := step op pkg

end System

/-! ## What a step can do -/

section Inversion

variable {op : OpPkg} {pkg : WalletPkg}

/-- What the event loop did with a result. -/
inductive Updated (op : OpPkg) (pkg : WalletPkg) (c : Cache) (r : ActionResult) :
    Cache → Except Err (IDPair × Bool) → Prop
  | refused {e} : Updated op pkg c r c (.error e)
  | added (info : KeyExistence) (proof : SignedProof) : Updated op pkg c r (c.put info proof) (.ok (info.id, true))
  | removed {id} : parseUpdate op pkg r = .ok (.remove id) → Updated op pkg c r (c.drop id) (.ok (id, false))

theorem Cache.update_updated {c c' : Cache} {r : ActionResult} {res : Except Err (IDPair × Bool)}
    (h : c.update op pkg r = (c', res)) : Updated op pkg c r c' res := by
  unfold Cache.update at h
  split at h
  · cases h; exact .refused
  · cases h; exact .added _ _
  next hp => cases h; exact .removed hp

/-- **Everything a step can do** to the cache, the sync and the history. -/
inductive Step (op : OpPkg) (pkg : WalletPkg) (s : State) : Event → State → Prop
  | skipped {ok} : Step op pkg s (.triggerSync ok) s
  | requested {ok} : s.pc = .idle → Step op pkg s (.triggerSync ok) { s with pc := .requested }
  | failed {e} : (∀ v, s.pc ≠ .batches v []) → Step op pkg s e { s with pc := .idle }
  | answered {r} : s.pc = .requested →
      Step op pkg s (.answerInfo r) { s with pc := .answered r, created := [], cycle := [] }
  | received {ok r remote} : s.pc = .answered r → Step op pkg s (.receiveInfo ok) { s with pc := .received remote }
  | snapped {remote} : s.pc = .received remote →
      Step op pkg s .localKeySet { s with pc := .snapped ⟨remote, s.cache.localKeySet⟩ }
  | chunked {v todo} : s.pc = .snapped v → Step op pkg s .keysNeedingProof { s with pc := .batches v todo }
  | proving {ok v batch todo} : s.pc = .batches v (batch :: todo) →
      Step op pkg s (.request ok) { s with pc := .proving v batch todo }
  | proved {r v batch todo} : s.pc = .proving v batch todo →
      Step op pkg s (.answerProof r) { s with pc := .proved v r todo }
  | fetched {ok v r proofs todo} : s.pc = .proved v r todo → parseKeyProofResult op pkg r = .ok proofs →
      Step op pkg s (.receiveProof ok) { s with pc := .writing v proofs todo }
  | wrote {v proofs todo pc} : s.pc = .writing v proofs todo → pc = .idle ∨ pc = .batches v todo →
      Step op pkg s .writeBatch { s with cache := (s.cache.writeBatch pkg proofs).1, pc }
  | evicted {v} : s.pc = .batches v [] →
      Step op pkg s .removeStaleKeys { s with cache := s.cache.removeStaleKeys v.remote v.localAtStart, pc := .idle }
  | acted {r node created} : Step op pkg s (.act r) { s with node, posted := s.posted ++ [r], created }
  | refused {n} : Step op pkg s (.update n) s
  | changed {n r cache change} : s.posted[n]? = some r → Updated op pkg s.cache r cache (.ok change) →
      Step op pkg s (.update n) { s with cache, cycle := change :: s.cycle, changes := change :: s.changes }

theorem step_inv {s s' : State} {e : Event} (h : step op pkg s e = some s') : Step op pkg s e s' := by
  cases e with
  | triggerSync ok =>
    simp only [step] at h
    split at h
    next hpc =>
      split at h
      · cases h; exact .requested hpc
      · cases h; exact .skipped
    next => cases h; exact .skipped
  | answerInfo r =>
    simp only [step] at h
    split at h
    next hpc =>
      split at h
      · cases h; exact .answered hpc
      · cases h
    next => cases h
  | receiveInfo ok =>
    simp only [step] at h
    split at h
    next hpc => cases h; exact .failed (by simp [hpc])
    next hpc => cases h; exact .failed (by simp [hpc])
    next hpc =>
      split at h
      · cases h; exact .failed (by simp [hpc])
      · cases h; exact .received hpc
    next => cases h
  | localKeySet =>
    simp only [step] at h
    split at h
    next hpc => cases h; exact .snapped hpc
    next => cases h
  | keysNeedingProof =>
    simp only [step] at h
    split at h
    next hpc => cases h; exact .chunked hpc
    next => cases h
  | request ok =>
    simp only [step] at h
    split at h
    next hpc =>
      split at h
      · cases h; exact .proving hpc
      · cases h; exact .failed (by simp [hpc])
    next => cases h
  | answerProof r =>
    simp only [step] at h
    split at h
    next hpc =>
      split at h
      · cases h; exact .proved hpc
      · cases h
    next => cases h
  | receiveProof ok =>
    simp only [step] at h
    split at h
    next hpc => cases h; exact .failed (by simp [hpc])
    next hpc => cases h; exact .failed (by simp [hpc])
    next hpc =>
      split at h
      · cases h; exact .failed (by simp [hpc])
      next hp => cases h; exact .fetched hpc hp
    next => cases h
  | writeBatch =>
    simp only [step] at h
    split at h
    next v proofs todo hpc =>
      have hw : ∀ {cache res}, s.cache.writeBatch pkg proofs = (cache, res) →
          cache = (s.cache.writeBatch pkg proofs).1 := fun hw => by rw [hw]
      split at h
      next hb => cases h; rw [hw hb]; exact .wrote hpc (.inl rfl)
      next hb => cases h; rw [hw hb]; exact .wrote hpc (.inr rfl)
    next => cases h
  | removeStaleKeys =>
    simp only [step] at h
    split at h
    next hpc => cases h; exact .evicted hpc
    next => cases h
  | act r =>
    simp only [step] at h
    split at h <;> cases h <;> exact .acted
  | update n =>
    simp only [step] at h
    split at h
    · cases h
    next r hn =>
    split at h
    next hu => cases h; cases Cache.update_updated hu; exact .refused
    next hu => cases h; exact .changed hn (Cache.update_updated hu)

end Inversion

end TeeProxy.Wallets
