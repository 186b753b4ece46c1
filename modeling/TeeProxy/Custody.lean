/-
Keys and backups from the TEE to a client: the result service
(`internal/service/result`), the wallet service with its event loop, its syncs
and its stores (`internal/service/wallets`), and the handlers `walletH`,
`backupH` and `backupLatestH` (`internal/server/external.go`).

Whoever reaches the internal port can post results, and the wallet service
looks at none of their signatures. What reaches it has gone through
`ProcessAndStore`, on a channel or by way of the storage. So every key a client
is served is proved by a result the TEE has signed (`keys_authentic`), and so is
every backup, which is of the hash or of the key that was asked for
(`backups_authentic`).

A sync waits for the answers to its own requests. Here it may take whatever is
stored. The stores are empty at the start, and no backup in them expires.
-/
import TeeProxy.Server.Served
import TeeProxy.Wallets.Loop

namespace TeeProxy.Custody

open Result (Pipeline Delivery Channel SigningPkg Signed hook)
open Server (ServeErr hashParam hashText cutPrefix toLower)
open Wallets (Cache KeyData KeyExistence SignedProof WalletPkg PC Goroutine Loop IDPair BackupService TEEBackupResponse
  BackupID idHashKey toKey parseKeyExistenceProof parseNewKeyActionResult parseKeyProofResult)

/-! ## The services together -/

/-- Of `results` the cache is not used: the loop has it. -/
structure State (σ : Type) where
  results : Pipeline
  loop : Loop σ

/-- The loop takes a result off `KeyActions` (which is the node's `n`-th),
`Backups` or `BackupTrigger`, and sync `i` finds the answer it waits for stored
under `id`; `loop` is any other step of the wallet service. -/
inductive Event
  | deliver (d : Delivery)
  | keyAction (n : Nat)
  | backup (okBody okIndex : Bool)
  | backupTrigger (ids : List IDPair)
  | answerInfo (i : Nat) (id : Queue.Pair)
  | answerProof (i : Nat) (id : Queue.Pair)
  | loop (e : Loop.Event)

/-- The result service never receives. -/
def serves : Delivery → Bool
  | .receive _ => false
  | _ => true

/-- The wallet service takes the step by itself. -/
def own : Loop.Event → Bool
  | .keyAction _ | .backup _ | .backupTrigger _ | .sync _ (.answerInfo _) _ | .sync _ (.answerProof _) _ => false
  | _ => true

section System

variable {ε σ : Type} (op : OpPkg) (sig : SigningPkg) (chainID : UInt64) (pkg : WalletPkg) (bs : BackupService ε σ)

/-- The first result on a channel, and the service without it. -/
def take (results : Pipeline) (c : Channel) : Option (ActionResult × Pipeline) := do
  let m ← results.service.onChannels.find? (·.channel = c)
  let results ← Pipeline.step op sig chainID pkg results (.receive c)
  return (m.response.result, results)

/-- A result taken off a channel goes to the event loop; a wait that ends
returns what is stored. -/
def step (s : State σ) : Event → Option (State σ)
  | .deliver d =>
    if serves d then (Pipeline.step op sig chainID pkg s.results d).map fun results => { s with results } else none
  | .keyAction n => do
    let (r, results) ← take op sig chainID pkg s.results .keyActions
    if s.loop.base.posted[n]? = some r then
      (Loop.step op pkg bs s.loop (.keyAction n)).map fun loop => ⟨results, loop⟩ else none
  | .backup okBody okIndex => do
    let (r, results) ← take op sig chainID pkg s.results .backups
    let loop ← Loop.step op pkg bs s.loop (.backup ⟨r, okBody, okIndex⟩)
    return ⟨results, loop⟩
  | .backupTrigger ids => do
    let (_, results) ← take op sig chainID pkg s.results .backupTrigger
    let loop ← Loop.step op pkg bs s.loop (.backupTrigger ids)
    return ⟨results, loop⟩
  | .answerInfo i id => do
    let response ← s.results.stored.get? id
    let loop ← Loop.step op pkg bs s.loop (.sync i (.answerInfo response.result) false)
    return { s with loop }
  | .answerProof i id => do
    let response ← s.results.stored.get? id
    let loop ← Loop.step op pkg bs s.loop (.sync i (.answerProof response.result) false)
    return { s with loop }
  | .loop e => if own e then (Loop.step op pkg bs s.loop e).map fun loop => { s with loop } else none

/-- No backup is stored. -/
def Blank (st : σ) : Prop :=
  (∀ key, bs.index.get true key st = .error bs.index.notFound) ∧
    ∀ key, bs.backups.get true key st = .error bs.backups.notFound

/-- No response is stored and no key cached. -/
def start (node : List IDPair) (st : σ) : State σ := ⟨⟨Result.start, ∅, .empty, []⟩, .start node st⟩

/-- The result service, the wallet service and its backups. -/
def system : Lts.System (State σ) Event where
  init s := ∃ node st, Blank bs st ∧ s = start node st
  step := step op sig chainID pkg bs

end System

/-! ## What a step can do -/

section Inversion

variable {ε σ : Type} {op : OpPkg} {sig : SigningPkg} {chainID : UInt64} {pkg : WalletPkg} {bs : BackupService ε σ}
  {s s' : State σ}

/-- The result is that of a message on the channel. -/
def Waiting (results : Pipeline) (c : Channel) (r : ActionResult) : Prop :=
  ∃ m ∈ results.service.onChannels, m.channel = c ∧ m.response.result = r

/-- **Everything a step can do.** -/
inductive Step (op : OpPkg) (sig : SigningPkg) (chainID : UInt64) (pkg : WalletPkg) (bs : BackupService ε σ)
    (s : State σ) : Event → State σ → Prop
  | delivered {d results} : Pipeline.step op sig chainID pkg s.results d = some results →
      Step op sig chainID pkg bs s (.deliver d) { s with results }
  | received {f c r e results loop} : Waiting s.results c r →
      Pipeline.step op sig chainID pkg s.results (.receive c) = some results →
      (∃ n, c = .keyActions ∧ e = .keyAction n ∧ s.loop.base.posted[n]? = some r) ∨
        (∃ okBody okIndex, c = .backups ∧ e = .backup ⟨r, okBody, okIndex⟩) ∨ (∃ ids, e = .backupTrigger ids) →
      Loop.step op pkg bs s.loop e = some loop → Step op sig chainID pkg bs s f ⟨results, loop⟩
  | answered {f i id response e loop} : s.results.stored.get? id = some response →
      e = .answerInfo response.result ∨ e = .answerProof response.result →
      Loop.step op pkg bs s.loop (.sync i e false) = some loop → Step op sig chainID pkg bs s f { s with loop }
  | moved {e loop} : own e = true → Loop.step op pkg bs s.loop e = some loop →
      Step op sig chainID pkg bs s (.loop e) { s with loop }

theorem take_inv {results results' : Pipeline} {c : Channel} {r : ActionResult}
    (h : take op sig chainID pkg results c = some (r, results')) :
    Waiting results c r ∧ Pipeline.step op sig chainID pkg results (.receive c) = some results' := by
  simp only [take, Option.bind_eq_bind, Option.bind_eq_some_iff, Option.pure_def, Option.some.injEq, Prod.mk.injEq] at h
  obtain ⟨m, hm, _, hstep, rfl, rfl⟩ := h
  exact ⟨⟨m, List.mem_of_find?_eq_some hm, by simpa using List.find?_some hm, rfl⟩, hstep⟩

theorem step_inv {e : Event} (h : step op sig chainID pkg bs s e = some s') :
    Step op sig chainID pkg bs s e s' := by
  cases e <;>
    simp only [step, Option.bind_eq_bind, Option.bind_eq_some_iff, Option.pure_def, Option.some.injEq] at h
  case deliver d =>
    split at h
    · obtain ⟨results, hd, rfl⟩ := Option.map_eq_some_iff.mp h
      exact .delivered hd
    · cases h
  case keyAction n =>
    obtain ⟨⟨r, results⟩, htake, h⟩ := h
    obtain ⟨hwaiting, hreceive⟩ := take_inv htake
    split at h
    next hn =>
      obtain ⟨loop, hloop, rfl⟩ := Option.map_eq_some_iff.mp h
      exact .received hwaiting hreceive (.inl ⟨n, rfl, rfl, hn⟩) hloop
    next => cases h
  case backup okBody okIndex =>
    obtain ⟨⟨r, results⟩, htake, loop, hloop, rfl⟩ := h
    obtain ⟨hwaiting, hreceive⟩ := take_inv htake
    exact .received hwaiting hreceive (.inr (.inl ⟨okBody, okIndex, rfl, rfl⟩)) hloop
  case backupTrigger ids =>
    obtain ⟨⟨r, results⟩, htake, loop, hloop, rfl⟩ := h
    obtain ⟨hwaiting, hreceive⟩ := take_inv htake
    exact .received hwaiting hreceive (.inr (.inr ⟨ids, rfl⟩)) hloop
  case answerInfo i id =>
    obtain ⟨response, hget, loop, hloop, rfl⟩ := h
    exact .answered hget (.inl rfl) hloop
  case answerProof i id =>
    obtain ⟨response, hget, loop, hloop, rfl⟩ := h
    exact .answered hget (.inr rfl) hloop
  case loop e =>
    split at h
    next hown =>
      obtain ⟨loop, hloop, rfl⟩ := Option.map_eq_some_iff.mp h
      exact .moved hown hloop
    next => cases h

end Inversion

/-! ## Who vouches for a result -/

section Vouched

variable {op : OpPkg} {sig : SigningPkg} {chainID : UInt64} {pkg : WalletPkg} {v v' : Result.State}

/-- It came in a response that the TEE has signed. -/
def Vouched (sig : SigningPkg) (chainID : UInt64) (v : Result.State) (r : ActionResult) : Prop :=
  ∃ response ∈ v.requests, response.result = r ∧ Signed sig chainID v.teeID response

theorem Vouched.step {r : ActionResult} (h : Vouched sig chainID v r) {f : Result.Event}
    (hs : Result.step op sig chainID v f = some v') : Vouched sig chainID v' r := by
  obtain ⟨response, hreq, hr, hsigned⟩ := h
  cases Result.step_inv hs with
  | identified _ hz => exact absurd hz hsigned.2.1
  | turnedAway | accepted => exact ⟨response, List.mem_append_left _ hreq, hr, hsigned⟩
  | moved | sent | stored => exact ⟨response, hreq, hr, hsigned⟩

theorem Vouched.deliver {r : ActionResult} {s s' : Pipeline} (h : Vouched sig chainID s.service r) {d : Delivery}
    (hs : Pipeline.step op sig chainID pkg s d = some s') : Vouched sig chainID s'.service r := by
  rcases (Pipeline.step_service hs).1 with heq | ⟨f, hf⟩
  · rwa [heq]
  · exact h.step hf

theorem onChannels_sent (h : Lts.Reach (Result.system op sig chainID) Lts.Free v) : ∀ m ∈ v.onChannels, m ∈ v.sent := by
  refine h.invariant (fun v => ∀ m ∈ v.onChannels, m ∈ v.sent) ?_ ?_
  · rintro v rfl m hm
    cases hm
  · intro v e v' _ ih _ hs
    cases e with
    | setIdentity teeID =>
      simp only [Result.system, Result.step] at hs
      split at hs
      · split at hs <;> cases hs <;> exact ih
      · cases hs
    | process r =>
      simp only [Result.system, Result.step] at hs
      split at hs
      · cases hs; exact ih
      · split at hs <;> cases hs <;> exact ih
    | passOn n =>
      simp only [Result.system, Result.step] at hs
      split at hs
      · split at hs
        · cases hs; exact ih
        split at hs
        · cases hs
          exact fun m hm => List.mem_append.mpr ((List.mem_append.mp hm).imp (ih m) id)
        · cases hs; exact ih
      · cases hs
    | store n existing written =>
      simp only [Result.system, Result.step] at hs
      split at hs
      · split at hs <;> cases hs <;> exact ih
      · cases hs
    | receive c =>
      simp only [Result.system, Result.step] at hs
      split at hs
      · cases hs; exact fun m hm => ih m (List.mem_of_mem_eraseP hm)
      · cases hs

/-- What waits on a channel belongs there, and the TEE has signed it. -/
theorem waiting_vouched {s : Pipeline} (h : Lts.Reach (Pipeline.system op sig chainID pkg) Lts.Free s) {c : Channel}
    {r : ActionResult} (hw : Waiting s c r) : hook op r = some c ∧ Vouched sig chainID s.service r := by
  obtain ⟨m, hm, rfl, rfl⟩ := hw
  have hservice := Pipeline.reach_service h
  obtain ⟨hreq, hhook, hsigned⟩ := (Result.authentic hservice).sent m (onChannels_sent hservice m hm)
  exact ⟨hhook, m.response, List.mem_of_getElem? hreq, rfl, hsigned⟩

/-- What is stored is vouched for, unless it is a TEE_INFO result. -/
theorem stored_vouched {s : Pipeline} (h : Lts.Reach (Pipeline.system op sig chainID pkg) Lts.Free s) {id : Queue.Pair}
    {response : ActionResponse} (hget : s.stored.get? id = some response)
    (hinfo : response.result.opCommand ≠ op.commandHash .teeInfo) : Vouched sig chainID s.service response.result := by
  obtain ⟨-, hreq, hsigned⟩ := Server.stored_signed h hget
  exact ⟨response, hreq, rfl, hsigned hinfo⟩

end Vouched

/-! ## The keys -/

section Keys

variable {ε σ : Type} {op : OpPkg} {pkg : WalletPkg} {bs : BackupService ε σ} {P Q : ActionResult → Prop} {c : Cache}

/-- The result has the proof in it: that of a new key, or one of many. -/
def Proves (op : OpPkg) (pkg : WalletPkg) (r : ActionResult) (proof : SignedProof) : Prop :=
  parseNewKeyActionResult op pkg r = .ok proof ∨
    ∃ proofs, parseKeyProofResult op pkg r = .ok proofs ∧ some proof ∈ proofs

/-- A result for which `P` holds has the proof of the key. -/
def Proved (op : OpPkg) (pkg : WalletPkg) (P : ActionResult → Prop) (data : KeyData) : Prop :=
  parseKeyExistenceProof pkg data.proof = .ok data.info ∧ ∃ r, P r ∧ Proves op pkg r data.proof

/-- Every key is under its own ID, and proved. -/
def Cached (op : OpPkg) (pkg : WalletPkg) (P : ActionResult → Prop) (c : Cache) : Prop :=
  ∀ id data, c.keys.get? id = some data → data.info.id = id ∧ Proved op pkg P data

theorem Proves.opCommand_ne {r : ActionResult} {proof : SignedProof} (h : Proves op pkg r proof) :
    r.status = 1 ∧ r.opCommand ≠ op.commandHash .teeInfo := by
  have hne : ∀ {cmd}, cmd ≠ .teeInfo → r.opCommand = op.commandHash cmd → r.opCommand ≠ op.commandHash .teeInfo :=
    fun hcmd heq hinfo => hcmd (op.commandHash_injective (heq.symm.trans hinfo))
  rcases h with h | ⟨proofs, h, -⟩
  · unfold parseNewKeyActionResult at h
    split at h
    · cases h
    next hstatus =>
    split at h
    · cases h
    split at h
    · cases h
    next hcmd =>
      refine ⟨not_not.mp hstatus, ?_⟩
      by_contra hinfo
      refine hcmd ⟨?_, ?_, ?_⟩ <;>
        exact fun heq => hne (by decide) heq hinfo
  · unfold parseKeyProofResult at h
    split at h
    · cases h
    next hstatus =>
    split at h
    · cases h
    split at h
    · cases h
    next hcmd => exact ⟨not_not.mp hstatus, hne (by decide) (not_not.mp hcmd)⟩

theorem Cached.put (h : Cached op pkg P c) {info : KeyExistence} {proof : SignedProof} {r : ActionResult}
    (hinfo : parseKeyExistenceProof pkg proof = .ok info) (hr : P r) (hproves : Proves op pkg r proof) :
    Cached op pkg P (c.put info proof) := by
  intro id data hget
  simp only [Cache.put, GoMap.get?_set] at hget
  split at hget
  next heq => cases hget; exact ⟨heq.symm, hinfo, r, hr, hproves⟩
  next => exact h id data hget

theorem Cached.drop (h : Cached op pkg P c) (id : IDPair) : Cached op pkg P (c.drop id) := by
  intro id' data hget
  simp only [Cache.drop, GoMap.get?_delete] at hget
  split at hget
  · cases hget
  · exact h id' data hget

theorem Cached.removeStaleKeys (h : Cached op pkg P c) (remote : List Wallets.KeyInfo) (localAtStart : List IDPair) :
    Cached op pkg P (c.removeStaleKeys remote localAtStart) :=
  Cache.removeStaleKeys_inv (Cached op pkg P) (fun _ id h => h.drop id) h remote localAtStart

theorem Cached.update (h : Cached op pkg P c) {r : ActionResult} (hr : P r) :
    Cached op pkg P (c.update op pkg r).1 := by
  unfold Cache.update
  split
  · exact h
  next info proof hparse =>
    unfold Wallets.parseUpdate at hparse
    split at hparse
    · cases hparse
    split at hparse
    · simp only [Except.bind_ok_iff, Except.pure_ok_iff, Wallets.KeyChange.add.injEq] at hparse
      obtain ⟨proof, hproof, info, hinfo, rfl, rfl⟩ := hparse
      exact h.put hinfo hr (.inl hproof)
    split at hparse
    · simp only [Except.bind_ok_iff, Except.pure_ok_iff, reduceCtorEq, and_false, exists_false] at hparse
    · cases hparse
  next id _ => exact h.drop id

theorem Cached.update_step {s t : Wallets.State} {n : Nat} (h : Cached op pkg P s.cache)
    (hkey : ∀ r, s.posted[n]? = some r → P r) (ht : Wallets.step op pkg s (.update n) = some t) :
    Cached op pkg P t.cache := by
  simp only [Wallets.step] at ht
  split at ht
  · cases ht
  next r hn =>
    have hcache := h.update (hkey r hn)
    split at ht
    next hu => cases ht; rw [hu] at hcache; exact hcache
    next hu => cases ht; rw [hu] at hcache; exact hcache

theorem Cached.writeBatch {r : ActionResult} (hr : P r) {proofs : List (Option SignedProof)}
    (hproofs : ∀ proof, some proof ∈ proofs → Proves op pkg r proof) (h : Cached op pkg P c) :
    Cached op pkg P (c.writeBatch pkg proofs).1 := by
  induction proofs generalizing c with
  | nil => exact h
  | cons head proofs ih =>
    cases head with
    | none => exact h
    | some proof =>
      unfold Cache.writeBatch
      split
      · exact h
      next info hinfo =>
        exact ih (fun proof hmem => hproofs proof (List.mem_cons_of_mem _ hmem))
          (h.put hinfo hr (hproofs proof List.mem_cons_self))

/-- A sync has an answer for which `P` holds, or proofs out of one. -/
def Answered (op : OpPkg) (pkg : WalletPkg) (P : ActionResult → Prop) : PC → Prop
  | .proved _ r _ => P r
  | .writing _ proofs _ => ∃ r, P r ∧ parseKeyProofResult op pkg r = .ok proofs
  | _ => True

/-- **A step of a sync.** -/
theorem sync_step {s t : Wallets.State} {e : Wallets.Event} (hst : Wallets.Step op pkg s e t)
    (hupdate : ∀ n, e ≠ .update n) (hanswer : ∀ r, e = .answerProof r → P r) (hc : Cached op pkg P s.cache)
    (hp : Answered op pkg P s.pc) : Cached op pkg P t.cache ∧ Answered op pkg P t.pc := by
  cases hst with
  | skipped => exact ⟨hc, hp⟩
  | requested | failed | answered | received | snapped | chunked | proving => exact ⟨hc, trivial⟩
  | @proved r => exact ⟨hc, hanswer r rfl⟩
  | @fetched _ _ r _ _ hpc hproofs =>
    rw [hpc] at hp
    exact ⟨hc, r, hp, hproofs⟩
  | @wrote _ _ _ _ hpc hnext =>
    rw [hpc] at hp
    obtain ⟨r, hr, hproofs⟩ := hp
    refine ⟨hc.writeBatch hr fun proof hmem => .inr ⟨_, hproofs, hmem⟩, ?_⟩
    rcases hnext with rfl | rfl <;> trivial
  | evicted => exact ⟨hc.removeStaleKeys _ _, trivial⟩
  | acted => exact ⟨hc, hp⟩
  | refused => exact absurd rfl (hupdate _)
  | changed => exact absurd rfl (hupdate _)

/-- The cached keys are proved, and so is what the syncs are about to write. -/
structure Sourced (op : OpPkg) (pkg : WalletPkg) (P : ActionResult → Prop) (l : Loop σ) : Prop where
  cache : Cached op pkg P l.base.cache
  syncs : ∀ g ∈ l.syncs, Answered op pkg P g.pc

variable {l l' : Loop σ}

theorem Sourced.mono (h : Sourced op pkg P l) (hPQ : ∀ r, P r → Q r) : Sourced op pkg Q l := by
  refine ⟨fun id data hget => ?_, fun g hg => ?_⟩
  · obtain ⟨hid, hinfo, r, hr, hproves⟩ := h.cache id data hget
    exact ⟨hid, hinfo, r, hPQ r hr, hproves⟩
  · have hold := h.syncs g hg
    generalize g.pc = pc at hold ⊢
    unfold Answered at hold ⊢
    split
    · exact hPQ _ hold
    · obtain ⟨r, hr, hproofs⟩ := hold
      exact ⟨r, hPQ r hr, hproofs⟩
    · trivial

theorem Sourced.set (h : Sourced op pkg P l) (i : Nat) {g : Goroutine} (hg : Answered op pkg P g.pc) :
    ∀ g' ∈ l.syncs.set i g, Answered op pkg P g'.pc := by
  intro g' hg'
  rcases List.mem_or_eq_of_mem_set hg' with hold | rfl
  · exact h.syncs g' hold
  · exact hg

theorem Sourced.sync (h : Sourced op pkg P l) {i : Nat} {pc : PC} (hi : l.syncs[i]? = some (.syncing pc))
    {e : Wallets.Event} (hof : Loop.ofSync pc e = true) (hanswer : ∀ r, e = .answerProof r → P r) {t : Wallets.State}
    (ht : Wallets.step op pkg { l.base with pc } e = some t) :
    Cached op pkg P t.cache ∧ Answered op pkg P t.pc := by
  refine sync_step (Wallets.step_inv ht) ?_ hanswer h.cache (h.syncs _ (List.mem_of_getElem? hi))
  rintro n rfl
  cases hof

theorem Sourced.step (h : Sourced op pkg P l) {e : Loop.Event} (hs : Loop.Step op pkg bs l e l')
    (hkey : ∀ n r, e = .keyAction n → l.base.posted[n]? = some r → P r)
    (hanswer : ∀ i r b, e = .sync i (.answerProof r) b → P r) : Sourced op pkg P l' := by
  cases hs with
  | started =>
    refine ⟨h.cache, fun g hg => ?_⟩
    rcases List.mem_append.mp hg with hg | hg
    · exact h.syncs g hg
    · cases List.mem_singleton.mp hg; trivial
  | refused n _ ht => exact ⟨h.cache.update_step (fun r hn => hkey n r rfl hn) ht, h.syncs⟩
  | changed n _ ht => exact ⟨h.cache.update_step (fun r hn => hkey n r rfl hn) ht, h.syncs⟩
  | @returned i e _ _ _ b hi hof ht =>
    exact ⟨(h.sync hi hof (fun r he => hanswer i r b (he ▸ rfl)) ht).1, h.set i trivial⟩
  | @synced i e _ _ b hi hof ht =>
    obtain ⟨hcache, hpc⟩ := h.sync hi hof (fun r he => hanswer i r b (he ▸ rfl)) ht
    exact ⟨hcache, h.set i hpc⟩
  | stored => exact ⟨h.cache, h.set _ trivial⟩
  | acted ht =>
    cases Wallets.step_inv ht with
    | failed | acted => exact ⟨h.cache, h.syncs⟩
  | _ => exact ⟨h.cache, h.syncs⟩

end Keys

/-! ## The backups -/

section Backups

variable {ε σ : Type} {op : OpPkg} {pkg : WalletPkg} {bs : BackupService ε σ} {P Q : ActionResult → Prop} {st : σ}

/-- A result for which `P` holds brought the backup. -/
def Brought (bs : BackupService ε σ) (P : ActionResult → Prop) (backup : TEEBackupResponse) : Prop :=
  ∃ r, P r ∧ bs.pkg.unmarshal r.data = .ok (some backup)

/-- Every body is of a backup with the hash it is under, and every entry of the
index is the hash of one of the key. -/
structure Kept (bs : BackupService ε σ) (P : ActionResult → Prop) (st : σ) : Prop where
  bodies : ∀ h b, bs.backups.get true (idHashKey h) st = .ok b →
    ∃ backup, b = some backup ∧ bs.pkg.hash backup.backupID = .ok h ∧ Brought bs P backup
  index : ∀ pair h, bs.index.get true (toKey pair) st = .ok h →
    ∃ backup, backup.backupID.pair = pair ∧ bs.pkg.hash backup.backupID = .ok h ∧ Brought bs P backup

theorem Kept.mono (h : Kept bs P st) (hPQ : ∀ r, P r → Q r) : Kept bs Q st := by
  have hmono : ∀ {backup}, Brought bs P backup → Brought bs Q backup := fun ⟨r, hr, hdata⟩ => ⟨r, hPQ r hr, hdata⟩
  refine ⟨fun idHash b hget => ?_, fun pair idHash hget => ?_⟩
  · obtain ⟨backup, hb, hhash, hbrought⟩ := h.bodies idHash b hget
    exact ⟨backup, hb, hhash, hmono hbrought⟩
  · obtain ⟨backup, hpair, hhash, hbrought⟩ := h.index pair idHash hget
    exact ⟨backup, hpair, hhash, hmono hbrought⟩

theorem Kept.body (h : Kept bs P st) {backup : TEEBackupResponse} {idHash : Hash} {ok : Bool} {st' : σ}
    (hhash : bs.pkg.hash backup.backupID = .ok idHash) (hbrought : Brought bs P backup)
    (hset : bs.backups.setWithTTL ok (idHashKey idHash) (some backup) st = .ok st') : Kept bs P st' := by
  refine ⟨fun idHash' b hget => ?_,
    fun pair h' hget => h.index pair h' ((bs.backups_unseen hset true _).symm.trans hget)⟩
  by_cases heq : idHash' = idHash
  · subst heq
    cases (bs.backups.get_set hset).symm.trans hget
    exact ⟨backup, rfl, hhash, hbrought⟩
  · exact h.bodies idHash' b ((bs.backups.get_other hset (Wallets.idHashKey_injective.ne heq) true).symm.trans hget)

theorem Kept.indexed (h : Kept bs P st) {backup : TEEBackupResponse} {idHash : Hash} {ok : Bool} {st' : σ}
    (hhash : bs.pkg.hash backup.backupID = .ok idHash) (hbrought : Brought bs P backup)
    (hset : bs.index.setWithTTL ok (toKey backup.backupID.pair) idHash st = .ok st') : Kept bs P st' := by
  refine ⟨fun idHash' b hget => h.bodies idHash' b ((bs.index_unseen hset true _).symm.trans hget),
    fun pair h' hget => ?_⟩
  by_cases heq : pair = backup.backupID.pair
  · subst heq
    cases (bs.index.get_set hset).symm.trans hget
    exact ⟨backup, rfl, hhash, hbrought⟩
  · exact h.index pair h' ((bs.index.get_other hset (Wallets.toKey_injective.ne heq) true).symm.trans hget)

theorem Kept.call (h : Kept bs P st) {r : ActionResult} (hr : P r) {out : σ × Except (Wallets.BackupErr ε) Unit}
    (hc : BackupService.Call bs r st out) : Kept bs P out.1 := by
  cases hc with
  | nothing e => exact h
  | body e hdata hhash hbody => exact h.body hhash ⟨r, hr, hdata⟩ hbody
  | both hdata hhash hbody hindex => exact (h.body hhash ⟨r, hr, hdata⟩ hbody).indexed hhash ⟨r, hr, hdata⟩ hindex

theorem Kept.step {l l' : Loop σ} (h : Kept bs P l.store) {e : Loop.Event} (hs : Loop.Step op pkg bs l e l')
    (hbackup : ∀ received, e = .backup received → P received.result) : Kept bs P l'.store := by
  cases hs with
  | backup received => exact h.call (hbackup received rfl) (BackupService.createNewBackup_call _ _ _ _)
  | _ => exact h

end Backups

/-! ## Whole runs -/

section Runs

variable {ε σ : Type} {op : OpPkg} {sig : SigningPkg} {chainID : UInt64} {pkg : WalletPkg} {bs : BackupService ε σ}
  {s s' : State σ} {e : Event}

theorem Step.results (h : Step op sig chainID pkg bs s e s') :
    s'.results = s.results ∨ ∃ d, Pipeline.step op sig chainID pkg s.results d = some s'.results := by
  cases h with
  | delivered hd => exact .inr ⟨_, hd⟩
  | received _ hd => exact .inr ⟨_, hd⟩
  | answered | moved => exact .inl rfl

theorem Step.vouched (h : Step op sig chainID pkg bs s e s') {r : ActionResult}
    (hr : Vouched sig chainID s.results.service r) : Vouched sig chainID s'.results.service r := by
  rcases h.results with heq | ⟨d, hd⟩
  · rwa [heq]
  · exact hr.deliver hd

theorem vouched_later {t : State σ} (hl : Lts.Later (system op sig chainID pkg bs) Lts.Free s t) {r : ActionResult}
    (hr : Vouched sig chainID s.results.service r) : Vouched sig chainID t.results.service r := by
  induction hl with
  | refl => exact hr
  | step _ _ hs ih => exact (step_inv hs).vouched ih

theorem reach_results (h : Lts.Reach (system op sig chainID pkg bs) Lts.Free s) :
    Lts.Reach (Pipeline.system op sig chainID pkg) Lts.Free s.results := by
  refine h.simulation State.results ?_ ?_
  · rintro s ⟨node, st, -, rfl⟩
    exact ⟨.empty, rfl⟩
  · intro s e s' _ _ _ hs
    exact (step_inv hs).results.imp id fun ⟨d, hd⟩ => ⟨d, trivial, hd⟩

/-- Vouched for, unless it is a TEE_INFO result. -/
def Accounted (op : OpPkg) (sig : SigningPkg) (chainID : UInt64) (s : State σ) (r : ActionResult) : Prop :=
  r.opCommand ≠ op.commandHash .teeInfo → Vouched sig chainID s.results.service r

/-- A vouched result that belongs on `Backups`. -/
def BackedUp (op : OpPkg) (sig : SigningPkg) (chainID : UInt64) (s : State σ) (r : ActionResult) : Prop :=
  hook op r = some .backups ∧ Vouched sig chainID s.results.service r

/-- Every cached key is proved by a result that is accounted for. -/
theorem sourced (h : Lts.Reach (system op sig chainID pkg bs) Lts.Free s) :
    Sourced op pkg (Accounted op sig chainID s) s.loop := by
  refine h.invariant (fun s => Sourced op pkg (Accounted op sig chainID s) s.loop) ?_ ?_
  · rintro s ⟨node, st, -, rfl⟩
    exact ⟨fun id data hget => (nomatch hget), fun g hg => (nomatch hg)⟩
  · intro s e s' hreach ih _ hs
    have hst := step_inv hs
    have hmono : ∀ r, Accounted op sig chainID s r → Accounted op sig chainID s' r :=
      fun r hr hinfo => hst.vouched (hr hinfo)
    refine Sourced.mono ?_ hmono
    have hresults := reach_results hreach
    cases hst with
    | delivered => exact ih
    | received hw _ he hl =>
      refine ih.step (Loop.step_inv hl) (fun n r heq hn _ => ?_) (fun i r b heq => ?_)
      · rcases he with ⟨n', rfl, rfl, hn'⟩ | ⟨_, _, _, rfl⟩ | ⟨_, rfl⟩
        · cases heq
          cases hn.symm.trans hn'
          exact (waiting_vouched hresults hw).2
        · cases heq
        · cases heq
      · rcases he with ⟨_, _, rfl, _⟩ | ⟨_, _, _, rfl⟩ | ⟨_, rfl⟩ <;> cases heq
    | answered hget he hl =>
      refine ih.step (Loop.step_inv hl) (fun n r heq => by cases heq) (fun i r b heq => ?_)
      rcases he with rfl | rfl
      · cases heq
      · cases heq
        exact stored_vouched hresults hget
    | moved hown hl =>
      refine ih.step (Loop.step_inv hl) (fun n r heq => ?_) (fun i r b heq => ?_)
      · subst heq; cases hown
      · subst heq; cases hown

theorem kept (h : Lts.Reach (system op sig chainID pkg bs) Lts.Free s) :
    Kept bs (BackedUp op sig chainID s) s.loop.store := by
  refine h.invariant (fun s => Kept bs (BackedUp op sig chainID s) s.loop.store) ?_ ?_
  · rintro s ⟨node, st, ⟨hindex, hbackups⟩, rfl⟩
    exact ⟨fun idHash b hget => (by cases (hbackups _).symm.trans hget),
      fun pair idHash hget => (by cases (hindex _).symm.trans hget)⟩
  · intro s e s' hreach ih _ hs
    have hst := step_inv hs
    have hmono : ∀ r, BackedUp op sig chainID s r → BackedUp op sig chainID s' r :=
      fun r hr => ⟨hr.1, hst.vouched hr.2⟩
    refine Kept.mono ?_ hmono
    cases hst with
    | delivered => exact ih
    | received hw _ he hl =>
      refine ih.step (Loop.step_inv hl) fun received heq => ?_
      rcases he with ⟨_, _, rfl, _⟩ | ⟨_, _, rfl, rfl⟩ | ⟨_, rfl⟩
      · cases heq
      · cases heq
        exact waiting_vouched (reach_results hreach) hw
      · cases heq
    | answered _ _ hl => exact ih.step (Loop.step_inv hl) fun received heq => by cases heq
    | moved hown hl =>
      refine ih.step (Loop.step_inv hl) fun received heq => ?_
      subst heq
      cases hown

end Runs

/-! ## What a client gets -/

/-- The errors of the handlers for keys and backups. -/
inductive HandlerErr (ε : Type)
  | param (e : ServeErr)
  | key (e : Wallets.ReadErr)
  /-- Status 404. -/
  | notFound
  | fetching (idHash : Hash) (e : ε)
  | latest (e : Wallets.BackupErr ε)
  deriving DecidableEq, Repr

section Handlers

variable {ε σ : Type}

/-- `GET /wallet/{walletID}/{keyID}`. -/
def External.walletH (c : Cache) (walletID keyID : Bytes) : Except (HandlerErr ε) KeyData := do
  let wID ← (hashParam "walletID" walletID).mapError .param
  let kID ← (Server.uint64Param "keyID" keyID).mapError .param
  (c.keyData wID kID).mapError .key

variable (bs : BackupService ε σ) [DecidableEq ε]

def fetchBackup (ok : Bool) (idHash : Hash) (st : σ) : Except (HandlerErr ε) (Option TEEBackupResponse) :=
  match bs.backups.get ok (idHashKey idHash) st with
  | .error e => if e = bs.backups.notFound then .error .notFound else .error (.fetching idHash e)
  | .ok b => .ok b

/-- `GET /backup/{backupIDHash}`. -/
def External.backupH (ok : Bool) (st : σ) (backupIDHash : Bytes) :
    Except (HandlerErr ε) (Option TEEBackupResponse) := do
  let idHash ← (hashParam "backupIDHash" backupIDHash).mapError .param
  fetchBackup bs ok idHash st

/-- `GET /backup/{walletID}/{keyID}`. The index is read in `st`, the body in
`st'`. -/
def External.backupLatestH (okIndex okBody : Bool) (st st' : σ) (walletID keyID : Bytes) :
    Except (HandlerErr ε) (Option TEEBackupResponse) := do
  let wID ← (hashParam "walletID" walletID).mapError .param
  let kID ← (Server.uint64Param "keyID" keyID).mapError .param
  (bs.fetchLatestBackup okIndex okBody ⟨wID, kID⟩ st st').mapError .latest

end Handlers

section Answers

variable {ε σ : Type} {op : OpPkg} {sig : SigningPkg} {chainID : UInt64} {pkg : WalletPkg} {bs : BackupService ε σ}
  {s t : State σ}

theorem get_ok {T : Type} {store : Storage ε σ T} {ok : Bool} {key : String} {st : σ} {a : T}
    (h : store.get ok key st = .ok a) : store.get true key st = .ok a := by
  cases ok with
  | true => exact h
  | false =>
    obtain ⟨e, he, -⟩ := store.get_failed key st
    cases he.symm.trans h

/-- **Keys are the TEE's.** Whatever was posted, by the node or anyone else,
and in whatever order the result service, the event loop and the syncs take
it: the key a client is served is the one it wrote the wallet ID and the number
of, is what its proof says, and the proof came in a result of status 1 that the
TEE has signed, of a new key or of KEY_PROOF. -/
theorem keys_authentic (h : Lts.Reach (system op sig chainID pkg bs) Lts.Free s) {walletID keyID : Bytes}
    {data : KeyData} (hserved : @External.walletH ε s.loop.base.cache walletID keyID = .ok data) :
    cutPrefix (walletID.map toLower) = hashText data.info.walletID ∧ Server.Numeral keyID data.info.keyID ∧
    parseKeyExistenceProof pkg data.proof = .ok data.info ∧
    ∃ response ∈ s.results.service.requests, Signed sig chainID s.results.service.teeID response ∧
      response.result.status = 1 ∧ Proves op pkg response.result data.proof := by
  simp only [External.walletH, Except.bind_ok_iff, Except.mapError_ok_iff, Server.hashParam_ok_iff,
    Server.uint64Param_ok_iff, Cache.keyData_ok_iff] at hserved
  obtain ⟨wID, hwallet, kID, hkey, hget⟩ := hserved
  obtain ⟨hid, hinfo, r, hr, hproves⟩ := (sourced h).cache _ _ hget
  obtain ⟨hstatus, hcmd⟩ := hproves.opCommand_ne
  obtain ⟨response, hreq, rfl, hsigned⟩ := hr hcmd
  cases hid
  exact ⟨hwallet, hkey, hinfo, response, hreq, hsigned, hstatus, hproves⟩

/-- A key the node has listed and proved, in results of the TEE 9. -/
def proofPosted : List Event :=
  let info : ActionResponse :=
    ⟨⟨1, .submit, 1, OpPkg.numbered.typeHash .get, OpPkg.numbered.commandHash .keyInfo, [8]⟩, [9]⟩
  let proof : ActionResponse :=
    ⟨⟨2, .submit, 1, OpPkg.numbered.typeHash .get, OpPkg.numbered.commandHash .keyProof, [8]⟩, [9]⟩
  [.deliver (.setIdentity 9), .deliver (.process info), .deliver (.passOn 0), .deliver (.store 0 true true),
    .deliver (.process proof), .deliver (.passOn 0), .deliver (.store 0 true true)]

/-- A sync takes both answers. -/
def synced : List Event :=
  [.loop .walletSyncTrigger, .loop (.sync 0 (.triggerSync true) false), .answerInfo 0 (1, .submit),
    .loop (.sync 0 (.receiveInfo true) false), .loop (.sync 0 .localKeySet false),
    .loop (.sync 0 .keysNeedingProof false), .loop (.sync 0 (.request true) false), .answerProof 0 (2, .submit),
    .loop (.sync 0 (.receiveProof true) false), .loop (.sync 0 .writeBatch false)]

theorem keys_authentic_synced :
    ∃ s : State (Redis Unit), s.results.service.teeID = 9 ∧
      @External.walletH StorageErr s.loop.base.cache (hashText 1) [48, 56] = .ok ⟨⟨1, 8, some 0, ⟨[], 0⟩⟩, ⟨[8], []⟩⟩ ∧
      ∃ response ∈ s.results.service.requests, Signed .named 0 9 response ∧
        Proves .numbered .bytes response.result ⟨[8], []⟩ := by
  have hrun : ((system .numbered .named 0 .bytes BackupService.redisBackups).run (start [⟨1, 8⟩] .empty)
      (proofPosted ++ synced)).any fun s => decide (s.results.service.teeID = 9 ∧
        s.loop.base.cache.keys.get? ⟨1, 8⟩ = some ⟨⟨1, 8, some 0, ⟨[], 0⟩⟩, ⟨[8], []⟩⟩) := by
    decide +kernel
  obtain ⟨s, hs, hend⟩ := (Option.any_eq_true _ _).mp hrun
  obtain ⟨hid, hget⟩ := of_decide_eq_true hend
  have hreach : Lts.Reach (system .numbered .named 0 .bytes BackupService.redisBackups) Lts.Free s :=
    .of_run (.init ⟨_, _, ⟨fun _ => rfl, fun _ => rfl⟩, rfl⟩) (fun _ _ _ => trivial) hs
  have hwallet : hashParam "walletID" (hashText 1) = .ok 1 := Server.hashParam_ok_iff.mpr (by decide +kernel)
  have hkey : Server.uint64Param "keyID" [48, 56] = .ok 8 := by decide +kernel
  have hserved : @External.walletH StorageErr s.loop.base.cache (hashText 1) [48, 56] =
      .ok ⟨⟨1, 8, some 0, ⟨[], 0⟩⟩, ⟨[8], []⟩⟩ := by
    simp only [External.walletH, Except.bind_ok_iff, Except.mapError_ok_iff, Cache.keyData_ok_iff]
    exact ⟨1, hwallet, 8, hkey, hget⟩
  obtain ⟨-, -, -, response, hreq, hsigned, -, hproves⟩ := keys_authentic hreach hserved
  exact ⟨s, hid, hserved, response, hreq, hid ▸ hsigned, hproves⟩

/-- The node has posted the backup, in a TEE_BACKUP result of status 1 that the
TEE has signed. -/
def FromTee (op : OpPkg) (sig : SigningPkg) (chainID : UInt64) (bs : BackupService ε σ) (s : State σ)
    (backup : TEEBackupResponse) : Prop :=
  ∃ response ∈ s.results.service.requests, Signed sig chainID s.results.service.teeID response ∧
    response.result.status = 1 ∧ response.result.opCommand = op.commandHash .teeBackup ∧
    bs.pkg.unmarshal response.result.data = .ok (some backup)

theorem hook_backups {r : ActionResult} (h : hook op r = some .backups) :
    r.status = 1 ∧ r.opCommand = op.commandHash .teeBackup := by
  unfold hook at h
  split at h
  next hr =>
    split at h
    · cases h
    split at h
    next hcmd => exact ⟨hr.1, hcmd⟩
    next => split at h <;> cases h
  next => cases h

theorem fromTee_of_brought {backup : TEEBackupResponse} (h : Brought bs (BackedUp op sig chainID s) backup) :
    FromTee op sig chainID bs s backup := by
  obtain ⟨r, ⟨hhook, response, hreq, rfl, hsigned⟩, hdata⟩ := h
  obtain ⟨hstatus, hcmd⟩ := hook_backups hhook
  exact ⟨response, hreq, hsigned, hstatus, hcmd, hdata⟩

variable [DecidableEq ε]

theorem fetchBackup_ok_iff {ok : Bool} {idHash : Hash} {st : σ} {b : Option TEEBackupResponse} :
    fetchBackup bs ok idHash st = .ok b ↔ bs.backups.get ok (idHashKey idHash) st = .ok b := by
  unfold fetchBackup
  split
  next e he => split <;> simp [he]
  next hb => simp [hb]

theorem fetchLatestBackup_ok_iff {okIndex okBody : Bool} {pair : IDPair} {st st' : σ} {b : Option TEEBackupResponse} :
    bs.fetchLatestBackup okIndex okBody pair st st' = .ok b ↔
      ∃ idHash, bs.index.get okIndex (toKey pair) st = .ok idHash ∧
        bs.backups.get okBody (idHashKey idHash) st' = .ok b := by
  unfold BackupService.fetchLatestBackup
  split
  next e he => split <;> simp [he]
  next idHash hh =>
    split
    next e he => split <;> simp [hh, he]
    next hb => simp [hh, hb]

/-- **Backups are the TEE's**, and those that were asked for. In every run from
empty stores, in which no backup expires, a backup that is served by its hash
has that hash. One that is served by its key is of the key, also if results are
taken between the read of the index and that of the body, where the hashes of
the backups that were posted do not collide between keys. Either came in a
TEE_BACKUP result that the TEE has signed. -/
theorem backups_authentic (h : Lts.Reach (system op sig chainID pkg bs) Lts.Free s)
    (hl : Lts.Later (system op sig chainID pkg bs) Lts.Free s t) (ids : Set BackupID)
    (hcov : BackupService.Covers bs.pkg ids)
    (hids : ∀ backup, FromTee op sig chainID bs t backup → backup.backupID ∈ ids) :
    (∀ ok backupIDHash b, External.backupH bs ok t.loop.store backupIDHash = .ok b → ∃ backup idHash,
      b = some backup ∧ cutPrefix (backupIDHash.map toLower) = hashText idHash ∧
      bs.pkg.hash backup.backupID = .ok idHash ∧ FromTee op sig chainID bs t backup) ∧
    (∀ okIndex okBody walletID keyID b,
      External.backupLatestH bs okIndex okBody s.loop.store t.loop.store walletID keyID = .ok b → ∃ backup,
        b = some backup ∧ cutPrefix (walletID.map toLower) = hashText backup.backupID.walletID ∧
        Server.Numeral keyID backup.backupID.keyID ∧ FromTee op sig chainID bs t backup) := by
  have hbodies := (kept (h.later hl)).bodies
  refine ⟨fun ok backupIDHash b hserved => ?_, fun okIndex okBody walletID keyID b hserved => ?_⟩
  · simp only [External.backupH, Except.bind_ok_iff, Except.mapError_ok_iff, Server.hashParam_ok_iff,
      fetchBackup_ok_iff] at hserved
    obtain ⟨idHash, htext, hget⟩ := hserved
    obtain ⟨backup, rfl, hhash, hbrought⟩ := hbodies idHash b (get_ok hget)
    exact ⟨backup, idHash, rfl, htext, hhash, fromTee_of_brought hbrought⟩
  · simp only [External.backupLatestH, Except.bind_ok_iff, Except.mapError_ok_iff, Server.hashParam_ok_iff,
      Server.uint64Param_ok_iff, fetchLatestBackup_ok_iff] at hserved
    obtain ⟨wID, hwallet, kID, hkey, idHash, hindex, hget⟩ := hserved
    obtain ⟨backup, rfl, hhash, hbrought⟩ := hbodies idHash b (get_ok hget)
    -- the entry of the index was made for a backup of the key, with the same hash
    obtain ⟨indexed, hpair, hhash', r, ⟨hhook, hvouched⟩, hdata⟩ := (kept h).index _ idHash (get_ok hindex)
    have hindexed : FromTee op sig chainID bs t indexed :=
      fromTee_of_brought ⟨r, ⟨hhook, vouched_later hl hvouched⟩, hdata⟩
    have hfrom := fromTee_of_brought hbrought
    have hsame : backup.backupID.pair = ⟨wID, kID⟩ :=
      (hcov _ (hids _ hfrom) _ (hids _ hindexed) idHash hhash hhash').trans hpair
    have hpairs := Wallets.IDPair.mk.inj hsame
    exact ⟨backup, rfl, hpairs.1 ▸ hwallet, hpairs.2 ▸ hkey, hfrom⟩

/-- A backup of key 7 in a result of the TEE 9, and the same in a forged one. -/
def backupPosted : List Event :=
  let backup (signature : Bytes) : ActionResponse :=
    ⟨⟨1, .submit, 1, OpPkg.numbered.typeHash .get, OpPkg.numbered.commandHash .teeBackup, [7]⟩, signature⟩
  [.deliver (.setIdentity 9), .deliver (.process (backup [8])), .deliver (.process (backup [9])), .deliver (.passOn 0),
    .deliver (.store 0 true true), .backup true true]

theorem backups_authentic_posted :
    ∃ s : State (Redis Unit), s.results.service.teeID = 9 ∧
      External.backupLatestH BackupService.redisBackups true true s.loop.store s.loop.store (hashText 1) [55] =
        .ok (some ⟨⟨1, 7, []⟩, []⟩) ∧
      FromTee .numbered .named 0 BackupService.redisBackups s ⟨⟨1, 7, []⟩, []⟩ := by
  have hrun : ((system .numbered .named 0 .bytes BackupService.redisBackups).run (start [] .empty) backupPosted).any
      fun s => decide (s.results.service.teeID = 9 ∧
        External.backupLatestH BackupService.redisBackups true true s.loop.store s.loop.store (hashText 1) [55] =
          .ok (some ⟨⟨1, 7, []⟩, []⟩)) := by
    decide +kernel
  obtain ⟨s, hs, hend⟩ := (Option.any_eq_true _ _).mp hrun
  obtain ⟨hid, hserved⟩ := of_decide_eq_true hend
  have hreach : Lts.Reach (system .numbered .named 0 .bytes BackupService.redisBackups) Lts.Free s :=
    .of_run (.init ⟨_, _, ⟨fun _ => rfl, fun _ => rfl⟩, rfl⟩) (fun _ _ _ => trivial) hs
  have hids : ∀ backup, FromTee .numbered .named 0 BackupService.redisBackups s backup →
      backup.backupID ∈ {id : BackupID | id.walletID = 1 ∧ id.rest = []} := by
    rintro backup ⟨response, -, -, -, -, hdata⟩
    simp only [BackupService.redisBackups] at hdata
    split at hdata <;> cases hdata <;> exact ⟨rfl, rfl⟩
  obtain ⟨backup, hb, -, -, hfrom⟩ :=
    (backups_authentic hreach .refl _ BackupService.covers_redisBackups hids).2 _ _ _ _ _ hserved
  cases hb
  exact ⟨s, hid, hserved, hfrom⟩

end Answers

end TeeProxy.Custody
