/-
The wallet event loop (`internal/service/wallets`: `RunUpdateInfo`,
`triggerSync`, `InitiateBackups`).

The loop takes sync triggers, key results, backup results and the epoch
rollover one at a time. Three things run beside it: the goroutine each trigger
starts unless the `syncing` flag is set, the goroutine each added key starts to
request its backup, and, while the loop waits in `InitiateBackups`, up to ten
requests at once.

Nothing keeps two sync goroutines apart but the flag. It does
(`loop_refines`): at most one of them has not finished, and the service is one
sync beside one event loop, the system of `Sync`. `backups_requested` is the
account of the backup requests.
-/
import TeeProxy.Wallets.Backups
import TeeProxy.Wallets.Representation
import Mathlib.Data.List.Perm.Basic
import Mathlib.Data.List.Count

namespace TeeProxy.Wallets

/-- The most requests of one `InitiateBackups` that run at once. -/
def initiateBackupsConcurrency : Nat := 10

/-- A goroutine of `triggerSync`. In `sync` it is where the one sync of the
service would be; it is idle until it has enqueued `KEY_INFO`. Once `sync` has
returned, the deferred `Store` of the flag is to come. -/
inductive Goroutine
  | syncing (pc : PC)
  | returned
  | done
  deriving DecidableEq

/-- Where the sync of a goroutine is. -/
def Goroutine.pc : Goroutine → PC
  | .syncing pc => pc
  | _ => .idle

/-- The goroutine is in `sync`. -/
def Goroutine.inSync : Goroutine → Bool
  | .syncing _ => true
  | _ => false

/-- What `WalletSyncObserved` is given. -/
inductive Outcome
  | skipped
  | success
  | enqueueError
  | waitError
  | parseError
  deriving DecidableEq

/-- A call of `InitiateBackups`: the keys it found, those with no goroutine
yet, those with one, and how the others went, in the order they ended. -/
structure Rollover where
  ids : List IDPair
  todo : List IDPair
  running : List IDPair
  tried : List (IDPair × Bool)
  deriving DecidableEq

/-- The error of the group: that of the first request to fail. -/
def Rollover.err (r : Rollover) : Option IDPair := (r.tried.find? fun t => !t.2).map (·.1)

/-- The event loop selects, initiates backups, or has returned. -/
inductive Position
  | select
  | initiateBackups (r : Rollover)
  | exited
  deriving DecidableEq

/-- The keys whose requests the loop is waiting for. -/
def Position.pending : Position → List IDPair
  | .initiateBackups r => r.todo ++ r.running
  | _ => []

/-- The service, the backend of the backups, the flag, the goroutines, and the
loop. Of `base` the `pc` is not used: every goroutine has its own. Of the past:
the triggers taken, what was observed of the syncs and how many ended cancelled
(which is not observed), the requests made, and the rollovers begun and ended. -/
structure Loop (σ : Type) where
  base : State
  store : σ
  syncing : Bool
  syncs : List Goroutine
  position : Position
  starting : List IDPair
  triggers : Nat
  observed : List Outcome
  cancelled : Nat
  requested : List (IDPair × Bool)
  begun : List (List IDPair)
  ended : List Rollover

namespace Loop

/-- `sync i e` is a step of the sync in goroutine `i`, or the node's answer to
it; `cancelled` is whether a wait that fails does so by cancellation. -/
inductive Event
  | cancel
  | walletSyncTrigger
  | keyAction (n : Nat)
  | backup (e : BackupService.Received)
  | backupTrigger (ids : List IDPair)
  | go
  | request (i : Nat) (ok : Bool)
  | wait
  | initiateBackup (i : Nat) (ok : Bool)
  | sync (i : Nat) (e : Wallets.Event) (cancelled : Bool)
  | store (i : Nat)
  | act (r : ActionResult)

/-- The steps a goroutine takes: `triggerSync` stands for the enqueueing of
`KEY_INFO`, its first. -/
def ofSync (pc : PC) : Wallets.Event → Bool
  | .triggerSync _ => pc = .idle
  | .act _ | .update _ => false
  | _ => true

/-- What is observed when `sync` returns at a step. A cancelled wait is not. -/
def outcome (cancelled : Bool) : Wallets.Event → Option Outcome
  | .triggerSync _ | .request _ => some .enqueueError
  | .receiveInfo false | .receiveProof false => if cancelled then none else some .waitError
  | .removeStaleKeys => some .success
  | _ => some .parseError

section Step

variable {ε σ : Type} (op : OpPkg) (pkg : WalletPkg) (bs : BackupService ε σ)

/-- `sync` has returned in goroutine `i`. -/
def finish (s : Loop σ) (i : Nat) (out : Option Outcome) : Loop σ :=
  { s with
    syncs := s.syncs.set i .returned
    observed := s.observed ++ out.toList
    cancelled := if out.isNone then s.cancelled + 1 else s.cancelled }

/-- `triggerSync`: skipped while the flag is set. -/
def triggerSync (s : Loop σ) : Loop σ :=
  if s.syncing then { s with triggers := s.triggers + 1, observed := s.observed ++ [.skipped] }
  else { s with triggers := s.triggers + 1, syncing := true, syncs := s.syncs ++ [.syncing .idle] }

/-- A key result: a key that is added gets a goroutine that requests its
backup. -/
def keyAction (s : Loop σ) (r : ActionResult) : Loop σ :=
  match s.base.cache.update op pkg r with
  | (cache, .error _) => { s with base := { s.base with cache } }
  | (cache, .ok (id, added)) => { s with
      base := { s.base with cache, cycle := (id, added) :: s.base.cycle, changes := (id, added) :: s.base.changes }
      starting := if added then s.starting ++ [id] else s.starting }

/-- A step of the event loop, of a sync goroutine, or of the node. -/
def step (s : Loop σ) : Event → Option (Loop σ)
  | .cancel => match s.position with
    | .select => some { s with position := .exited }
    | _ => none
  | .walletSyncTrigger => match s.position with
    | .select => some s.triggerSync
    | _ => none
  | .keyAction n => match s.position, s.base.posted[n]? with
    | .select, some r => some (s.keyAction op pkg r)
    | _, _ => none
  | .backup e => match s.position with
    | .select => some { s with store := (bs.createNewBackup e.okBody e.okIndex e.result s.store).1 }
    | _ => none
  | .backupTrigger ids => match s.position with
    -- The keys come in the order the map is ranged over.
    | .select => if ids.isPerm s.base.cache.keys.keys then
        some { s with position := .initiateBackups ⟨ids, ids, [], []⟩, begun := s.begun ++ [ids] } else none
    | _ => none
  | .go => match s.position with
    | .initiateBackups ⟨ids, id :: todo, running, tried⟩ =>
      if running.length < initiateBackupsConcurrency then
        some { s with position := .initiateBackups ⟨ids, todo, running ++ [id], tried⟩ } else none
    | _ => none
  | .request i ok => match s.position with
    | .initiateBackups ⟨ids, todo, running, tried⟩ => match running[i]? with
      | some id => some { s with
          position := .initiateBackups ⟨ids, todo, running.eraseIdx i, tried ++ [(id, ok)]⟩
          requested := s.requested ++ [(id, ok)] }
      | none => none
    | _ => none
  | .wait => match s.position with
    | .initiateBackups ⟨ids, [], [], tried⟩ =>
      some { s with position := .select, ended := s.ended ++ [⟨ids, [], [], tried⟩] }
    | _ => none
  | .initiateBackup i ok => match s.starting[i]? with
    | some id => some { s with starting := s.starting.eraseIdx i, requested := s.requested ++ [(id, ok)] }
    | none => none
  | .sync i e cancelled => match s.syncs[i]? with
    | some (.syncing pc) => if ofSync pc e then
        match Wallets.step op pkg { s.base with pc } e with
        | none => none
        | some t => some (if t.pc = .idle then finish { s with base := t } i (outcome cancelled e)
            else { s with base := t, syncs := s.syncs.set i (.syncing t.pc) })
      else none
    | _ => none
  | .store i => match s.syncs[i]? with
    | some .returned => some { s with syncs := s.syncs.set i .done, syncing := false }
    | _ => none
  | .act r => match Wallets.step op pkg s.base (.act r) with
    | none => none
    | some t => some { s with base := t }

end Step

/-- The service before its first trigger. -/
def start {σ : Type} (node : List IDPair) (st : σ) : Loop σ :=
  ⟨emptyState node, st, false, [], .select, [], 0, [], 0, [], [], []⟩

/-- A new service, whose backup index is empty. -/
def system {ε σ : Type} (op : OpPkg) (pkg : WalletPkg) (bs : BackupService ε σ) : Lts.System (Loop σ) Event where
  init s := ∃ node st, bs.system.init st ∧ s = start node st
  step := step op pkg bs

/-! ## What a step can do -/

section Inversion

variable {ε σ : Type} {op : OpPkg} {pkg : WalletPkg} {bs : BackupService ε σ}

/-- **Everything a step can do.** -/
inductive Step (op : OpPkg) (pkg : WalletPkg) (bs : BackupService ε σ) (s : Loop σ) : Event → Loop σ → Prop
  | exited : s.position = .select → Step op pkg bs s .cancel { s with position := .exited }
  | skipped : s.syncing = true →
      Step op pkg bs s .walletSyncTrigger { s with triggers := s.triggers + 1, observed := s.observed ++ [.skipped] }
  | started : s.syncing = false →
      Step op pkg bs s .walletSyncTrigger { s with
        triggers := s.triggers + 1, syncing := true, syncs := s.syncs ++ [.syncing .idle] }
  | refused (n : Nat) {t} : s.position = .select → Wallets.step op pkg s.base (.update n) = some t →
      t.changes = s.base.changes → Step op pkg bs s (.keyAction n) { s with base := t }
  | changed (n : Nat) {t id added} : s.position = .select → Wallets.step op pkg s.base (.update n) = some t →
      t.changes = (id, added) :: s.base.changes →
      Step op pkg bs s (.keyAction n) { s with
        base := t, starting := if added then s.starting ++ [id] else s.starting }
  | backup (e : BackupService.Received) :
      Step op pkg bs s (.backup e) { s with
        store := (bs.createNewBackup e.okBody e.okIndex e.result s.store).1 }
  | begun {ids} : s.position = .select → ids.Perm s.base.cache.keys.keys →
      Step op pkg bs s (.backupTrigger ids) { s with
        position := .initiateBackups ⟨ids, ids, [], []⟩, begun := s.begun ++ [ids] }
  | spawned {ids id todo running tried} : s.position = .initiateBackups ⟨ids, id :: todo, running, tried⟩ →
      running.length < initiateBackupsConcurrency →
      Step op pkg bs s .go { s with position := .initiateBackups ⟨ids, todo, running ++ [id], tried⟩ }
  | tried {ids todo running tried i id ok} : s.position = .initiateBackups ⟨ids, todo, running, tried⟩ →
      running[i]? = some id →
      Step op pkg bs s (.request i ok) { s with
        position := .initiateBackups ⟨ids, todo, running.eraseIdx i, tried ++ [(id, ok)]⟩
        requested := s.requested ++ [(id, ok)] }
  | ended {ids tried} : s.position = .initiateBackups ⟨ids, [], [], tried⟩ →
      Step op pkg bs s .wait { s with position := .select, ended := s.ended ++ [⟨ids, [], [], tried⟩] }
  | requested {i id ok} : s.starting[i]? = some id →
      Step op pkg bs s (.initiateBackup i ok) { s with
        starting := s.starting.eraseIdx i, requested := s.requested ++ [(id, ok)] }
  | returned {i e pc t out cancelled} : s.syncs[i]? = some (.syncing pc) → ofSync pc e = true →
      Wallets.step op pkg { s.base with pc } e = some t → t.pc = .idle →
      Step op pkg bs s (.sync i e cancelled) (finish { s with base := t } i out)
  | synced {i e pc t cancelled} : s.syncs[i]? = some (.syncing pc) → ofSync pc e = true →
      Wallets.step op pkg { s.base with pc } e = some t →
      Step op pkg bs s (.sync i e cancelled) { s with base := t, syncs := s.syncs.set i (.syncing t.pc) }
  | stored {i} : s.syncs[i]? = some .returned →
      Step op pkg bs s (.store i) { s with syncs := s.syncs.set i .done, syncing := false }
  | acted {r t} : Wallets.step op pkg s.base (.act r) = some t → Step op pkg bs s (.act r) { s with base := t }

theorem step_inv {s s' : Loop σ} {e : Event} (h : step op pkg bs s e = some s') : Step op pkg bs s e s' := by
  cases e with
  | cancel =>
    simp only [step] at h
    split at h
    next hp => cases h; exact .exited hp
    next => cases h
  | walletSyncTrigger =>
    simp only [step, triggerSync] at h
    split at h
    next =>
      split at h
      next hf => cases h; exact .skipped hf
      next hf => cases h; exact .started (Bool.eq_false_iff.mpr hf)
    next => cases h
  | keyAction n =>
    simp only [step, keyAction] at h
    split at h
    next hp hn =>
      split at h
      next hu => cases h; exact .refused n hp (by simp only [Wallets.step, hn, hu]) rfl
      next hu => cases h; exact .changed n hp (by simp only [Wallets.step, hn, hu]) rfl
    next => cases h
  | backup e =>
    simp only [step] at h
    split at h
    next => cases h; exact .backup e
    next => cases h
  | backupTrigger ids =>
    simp only [step] at h
    split at h
    next hp =>
      split at h
      next hperm => cases h; exact .begun hp (List.isPerm_iff.mp hperm)
      next => cases h
    next => cases h
  | go =>
    simp only [step] at h
    split at h
    next hp =>
      split at h
      next hlt => cases h; exact .spawned hp hlt
      next => cases h
    next => cases h
  | request i ok =>
    simp only [step] at h
    split at h
    next hp =>
      split at h
      next hi => cases h; exact .tried hp hi
      next => cases h
    next => cases h
  | wait =>
    simp only [step] at h
    split at h
    next hp => cases h; exact .ended hp
    next => cases h
  | initiateBackup i ok =>
    simp only [step] at h
    split at h
    next hi => cases h; exact .requested hi
    next => cases h
  | sync i e cancelled =>
    simp only [step] at h
    split at h
    next hi =>
      split at h
      next he =>
        split at h
        · cases h
        next ht =>
          cases h
          split
          next hidle => exact .returned hi he ht hidle
          next => exact .synced hi he ht
      next => cases h
    next => cases h
  | store i =>
    simp only [step] at h
    split at h
    next hi => cases h; exact .stored hi
    next => cases h
  | act r =>
    simp only [step] at h
    split at h
    · cases h
    next ht => cases h; exact .acted ht

end Inversion

/-! ## One sync at a time -/

/-- All goroutines are done, and the flag is off; or all but the last, and it
is on. -/
inductive Single : Bool → List Goroutine → Prop
  | free (n : Nat) : Single false (.replicate n .done)
  | held (n : Nat) {g : Goroutine} : g ≠ .done → Single true (.replicate n .done ++ [g])

theorem Single.last {b : Bool} {gs : List Goroutine} (h : Single b gs) {i : Nat} {g : Goroutine}
    (hi : gs[i]? = some g) (hg : g ≠ .done) :
    ∃ n, b = true ∧ gs = .replicate n .done ++ [g] ∧ ∀ g', gs.set i g' = .replicate n .done ++ [g'] := by
  cases h with
  | free n => exact absurd (List.eq_of_mem_replicate (List.mem_of_getElem? hi)) hg
  | @held n g₀ hg₀ =>
    have hlen : (List.replicate n Goroutine.done).length = n := List.length_replicate
    rcases lt_trichotomy i n with hlt | rfl | hgt
    · rw [List.getElem?_append_left (by rw [hlen]; exact hlt)] at hi
      exact absurd (List.eq_of_mem_replicate (List.mem_of_getElem? hi)) hg
    · rw [List.getElem?_append_right hlen.le, hlen, Nat.sub_self] at hi
      cases hi
      refine ⟨i, rfl, rfl, fun g' => ?_⟩
      rw [List.set_append_right _ _ hlen.le, hlen, Nat.sub_self, List.set_cons_zero]
    · rw [List.getElem?_eq_none (by rw [List.length_append, hlen]; exact hgt)] at hi
      cases hi

/-- Where the last goroutine is. -/
def lastPC (gs : List Goroutine) : PC := (gs.getLast?.map Goroutine.pc).getD .idle

theorem lastPC_concat (gs : List Goroutine) (g : Goroutine) : lastPC (gs ++ [g]) = g.pc := by
  simp only [lastPC, List.getLast?_concat, Option.map_some, Option.getD_some]

theorem lastPC_replicate_done (n : Nat) : lastPC (.replicate n .done) = .idle := by
  cases n <;> simp [lastPC, List.getLast?_replicate, Goroutine.pc]

theorem Single.lastPC {b : Bool} {gs : List Goroutine} (h : Single b gs) {i : Nat} {g : Goroutine}
    (hi : gs[i]? = some g) (hg : g ≠ .done) : lastPC gs = g.pc ∧ ∀ g', lastPC (gs.set i g') = g'.pc := by
  obtain ⟨n, -, heq, hset⟩ := h.last hi hg
  exact ⟨by rw [heq, lastPC_concat], fun g' => by rw [hset, lastPC_concat]⟩

/-- The service with its one sync. -/
def view {σ : Type} (s : Loop σ) : State := { s.base with pc := lastPC s.syncs }

/-- The goroutines, and the account of the triggers: each is skipped, or ends
observed or cancelled, or is in `sync`. -/
structure Guarded {σ : Type} (s : Loop σ) : Prop where
  single : Single s.syncing s.syncs
  account : s.triggers = s.observed.length + s.cancelled + s.syncs.countP Goroutine.inSync

theorem countP_replicate_done (n : Nat) : (List.replicate n Goroutine.done).countP Goroutine.inSync = 0 := by
  simp [List.countP_replicate, Goroutine.inSync]

section Runs

variable {ε σ : Type} {op : OpPkg} {pkg : WalletPkg} {bs : BackupService ε σ}

theorem Guarded.step {s s' : Loop σ} {e : Event} (h : Guarded s) (hs : Step op pkg bs s e s') : Guarded s' := by
  have haccount := h.account
  cases hs with
  | skipped => exact ⟨h.single, by simp only [List.length_append, List.length_singleton]; omega⟩
  | started hfree =>
    have hsingle := h.single
    rw [hfree] at hsingle
    generalize s.syncs = gs at hsingle haccount
    cases hsingle with
    | free n =>
      rw [countP_replicate_done] at haccount
      refine ⟨.held n (by simp), ?_⟩
      rw [List.countP_append, countP_replicate_done]
      simp only [List.countP_singleton, Goroutine.inSync, if_true]
      omega
  | @returned i e pc t out _ hi =>
    obtain ⟨n, hflag, heq, hset⟩ := h.single.last hi (by simp)
    rw [heq, List.countP_append, countP_replicate_done, List.countP_singleton] at haccount
    have hcount : (List.replicate n Goroutine.done ++ [Goroutine.returned]).countP Goroutine.inSync = 0 := by
      rw [List.countP_append, countP_replicate_done, List.countP_singleton]
      rfl
    have hheld : Single s.syncing (.replicate n .done ++ [.returned]) := hflag ▸ .held n (by simp)
    simp only [Goroutine.inSync, if_true] at haccount
    refine ⟨by simpa only [finish, hset] using hheld, ?_⟩
    cases out <;> simp only [finish, hset, hcount, Option.toList, Option.isNone_none, Option.isNone_some,
      List.length_append, List.length_nil, List.length_singleton, Bool.false_eq_true, if_true, if_false] <;> omega
  | synced hi =>
    obtain ⟨n, hflag, heq, hset⟩ := h.single.last hi (by simp)
    refine ⟨by simpa only [hset, hflag] using .held n (by simp), ?_⟩
    rw [heq] at haccount
    simpa only [hset, List.countP_append, List.countP_singleton, Goroutine.inSync, if_true] using haccount
  | @stored i hi =>
    obtain ⟨n, hflag, heq, hset⟩ := h.single.last hi (by simp)
    have hdone : s.syncs.set i .done = List.replicate (n + 1) .done := by rw [hset, List.replicate_succ']
    refine ⟨by simpa only [hdone] using .free (n + 1), ?_⟩
    rw [heq] at haccount
    rw [hset, List.countP_append, List.countP_singleton]
    rw [List.countP_append, List.countP_singleton] at haccount
    exact haccount
  | _ => exact ⟨h.single, haccount⟩

theorem guarded {s : Loop σ} (h : Lts.Reach (system op pkg bs) Lts.Free s) : Guarded s := by
  refine h.invariant Guarded ?_ fun s e s' _ ih _ hs => ih.step (step_inv hs)
  rintro s ⟨node, st, -, rfl⟩
  exact ⟨.free 0, rfl⟩

/-- The event loop and the node do not look at the sync. -/
theorem step_pc {s t : State} {e : Wallets.Event} (he : ofSync .idle e = false) (h : Wallets.step op pkg s e = some t)
    (pc : PC) : Wallets.step op pkg { s with pc } e = some { t with pc } := by
  cases e with
  | act r =>
    simp only [Wallets.step] at h ⊢
    split at h <;> cases h <;> rfl
  | update n =>
    simp only [Wallets.step] at h ⊢
    split at h
    · cases h
    · split at h <;> cases h <;> rfl
  | _ => cases he

/-- A step of the loop is a step of the service with one sync, or none. -/
theorem view_step {s s' : Loop σ} {e : Event} (h : Guarded s) (hs : Step op pkg bs s e s') :
    s'.view = s.view ∨ ∃ e, Wallets.step op pkg s.view e = some s'.view := by
  cases hs with
  | started hfree =>
    have hsingle := h.single
    rw [hfree] at hsingle
    have hidle : lastPC s.syncs = .idle := by
      generalize s.syncs = gs at hsingle
      cases hsingle with
      | free n => exact lastPC_replicate_done n
    refine .inl ?_
    rw [view, view, hidle, lastPC_concat]
    rfl
  | refused n _ ht => exact .inr ⟨_, step_pc rfl ht _⟩
  | changed n _ ht => exact .inr ⟨_, step_pc rfl ht _⟩
  | acted ht => exact .inr ⟨_, step_pc rfl ht _⟩
  | @returned i e pc t out _ hi _ ht hidle =>
    obtain ⟨hnow, hnext⟩ := h.single.lastPC hi (by simp)
    have ht' : { t with pc := .idle } = t := by rw [← hidle]
    refine .inr ⟨e, ?_⟩
    simp only [view, finish, hnow, hnext]
    exact ht.trans (congrArg some ht'.symm)
  | @synced i e pc t _ hi _ ht =>
    obtain ⟨hnow, hnext⟩ := h.single.lastPC hi (by simp)
    refine .inr ⟨e, ?_⟩
    simp only [view, hnow, hnext]
    exact ht
  | stored hi =>
    obtain ⟨hnow, hnext⟩ := h.single.lastPC hi (by simp)
    refine .inl ?_
    simp only [view, hnow, hnext]
    rfl
  | _ => exact .inl rfl

theorem service_of_reach {s : Loop σ} (h : Lts.Reach (system op pkg bs) Lts.Free s) :
    Lts.Reach (service op pkg) Lts.Free s.view := by
  refine h.simulation (A := service op pkg) view ?_ fun s e s' hr _ _ hs => ?_
  · rintro s ⟨node, st, -, rfl⟩
    exact ⟨node, rfl⟩
  · rcases view_step (guarded hr) (step_inv hs) with heq | ⟨f, hf⟩
    · exact .inl heq
    · exact .inr ⟨f, trivial, hf⟩

theorem store_of_reach {s : Loop σ} (h : Lts.Reach (system op pkg bs) Lts.Free s) :
    Lts.Reach bs.system Lts.Free s.store := by
  refine h.simulation (A := bs.system) store ?_ fun s e s' _ _ _ hs => ?_
  · rintro s ⟨node, st, hst, rfl⟩
    exact hst
  · cases step_inv hs with
    | backup e => exact .inr ⟨e, trivial, rfl⟩
    | _ => exact .inl rfl

/-- **The flag keeps the syncs apart.** Whatever order the event loop, the
sync goroutines and the node go in: at most one goroutine of `triggerSync` is
not done, and there is one exactly while the flag is set. So what the loop does
to the cache is what one sync beside one event loop does, and what it does to
the backups is one `createNewBackup` after another. Every trigger is skipped,
ends in one observed outcome, is cancelled, or is in `sync`. -/
theorem loop_refines {s : Loop σ} (h : Lts.Reach (system op pkg bs) Lts.Free s) :
    Lts.Reach (service op pkg) Lts.Free s.view ∧ Lts.Reach bs.system Lts.Free s.store ∧
      (s.syncs.filter (· ≠ .done)).length = s.syncing.toNat ∧
      s.triggers = s.observed.length + s.cancelled + s.syncs.countP Goroutine.inSync := by
  refine ⟨service_of_reach h, store_of_reach h, ?_, (guarded h).account⟩
  have hsingle := (guarded h).single
  generalize s.syncs = gs at hsingle
  generalize s.syncing = b at hsingle
  cases hsingle with
  | free n => simp
  | held n hg => simp [hg]

end Runs

/-- A trigger during a sync, whose wait is cancelled; in the meantime key 7 is
added, its backup requested, and a rollover fails to request another. A third
trigger starts a second goroutine. -/
def overlapping : List Event :=
  [.act (plainResult .wallet .keyGenerate [7]), .walletSyncTrigger, .sync 0 (.triggerSync true) false,
    .walletSyncTrigger, .keyAction 0, .backupTrigger [⟨1, 7⟩], .go, .initiateBackup 0 true, .request 0 false, .wait,
    .sync 0 (.receiveInfo false) true, .store 0, .walletSyncTrigger, .sync 1 (.triggerSync true) false]

theorem loop_refines_overlapping :
    ∃ s : Loop (Redis Unit), Lts.Reach (system .numbered .bytes BackupService.redisBackups) Lts.Free s ∧
      s.syncs = [.done, .syncing .requested] ∧ s.observed = [.skipped] ∧ s.cancelled = 1 ∧ s.triggers = 3 ∧
      Lts.Reach (service .numbered .bytes) Lts.Free s.view ∧ s.view.pc = .requested ∧ s.view.cache.Has ⟨1, 7⟩ := by
  have hrun : ((system .numbered .bytes BackupService.redisBackups).run (start [] .empty) overlapping).any (fun s =>
      s.syncs = [.done, .syncing .requested] ∧ s.observed = [.skipped] ∧ s.cancelled = 1 ∧ s.view.pc = .requested ∧
      s.view.cache.Has ⟨1, 7⟩) := by
    decide +kernel
  obtain ⟨s, hs, hend⟩ := (Option.any_eq_true _ _).mp hrun
  obtain ⟨hsyncs, hobserved, hcancelled, hpc, hhas⟩ := of_decide_eq_true hend
  have hreach : Lts.Reach (system .numbered .bytes BackupService.redisBackups) Lts.Free s :=
    .of_run (.init ⟨[], .empty, fun _ => rfl, rfl⟩) (fun _ _ _ => trivial) hs
  obtain ⟨hservice, -, -, htriggers⟩ := loop_refines hreach
  rw [hsyncs, hobserved, hcancelled] at htriggers
  exact ⟨s, hreach, hsyncs, hobserved, hcancelled, htriggers, hservice, hpc, hhas⟩

/-! ## The requests of backups -/

section Runs

variable {ε σ : Type} {op : OpPkg} {pkg : WalletPkg} {bs : BackupService ε σ}

/-- The keys a list of changes adds. -/
def added (changes : List (IDPair × Bool)) : List IDPair := (changes.filter (·.2)).map (·.1)

/-- `r` began in `s₀`: it found the keys cached there. -/
def BeganIn (r : Rollover) (s₀ : Loop σ) : Prop := r.ids.Perm s₀.base.cache.keys.keys

/-- The account of a rollover: each of its keys is to come, running or
tried. -/
def Accounted (r : Rollover) (requested : List (IDPair × Bool)) : Prop :=
  (r.tried.map (·.1) ++ (r.todo ++ r.running)).Perm r.ids ∧ r.tried.Sublist requested

/-- What holds of the requests in a run of `system`. -/
structure Requests (op : OpPkg) (pkg : WalletPkg) (bs : BackupService ε σ) (s : Loop σ) : Prop where
  account : (s.requested.map (·.1) ++ s.starting ++ s.position.pending).Perm (added s.base.changes ++ s.begun.flatten)
  current : ∀ r, s.position = .initiateBackups r → r.running.length ≤ initiateBackupsConcurrency ∧
    Accounted r s.requested ∧ ∃ s₀, Lts.Later (system op pkg bs) Lts.Free s₀ s ∧ BeganIn r s₀ ∧
      s.base.changes = s₀.base.changes
  ended : ∀ r ∈ s.ended, r.todo = [] ∧ r.running = [] ∧ Accounted r s.requested ∧
    ∃ s₀, Lts.Later (system op pkg bs) Lts.Free s₀ s ∧ BeganIn r s₀

theorem ne_update {pc : PC} {e : Wallets.Event} (he : ofSync pc e = true) (n : Nat) : e ≠ .update n := by
  rintro rfl
  cases he

/-- A sync leaves the changes of the event loop as they were. -/
theorem changes_of_sync {s t : State} {e : Wallets.Event} (he : ∀ n, e ≠ .update n)
    (h : Wallets.step op pkg s e = some t) :
    t.changes = s.changes := by
  cases Wallets.step_inv h with
  | changed => exact absurd rfl (he _)
  | _ => rfl

theorem Requests.frame {s s' : Loop σ} (h : Requests op pkg bs s)
    (hl : ∀ {s₀}, Lts.Later (system op pkg bs) Lts.Free s₀ s → Lts.Later (system op pkg bs) Lts.Free s₀ s')
    (hreq : s'.requested = s.requested) (hstart : s'.starting = s.starting) (hpos : s'.position = s.position)
    (hbegun : s'.begun = s.begun) (hended : s'.ended = s.ended) (hch : s'.base.changes = s.base.changes) :
    Requests op pkg bs s' where
  account := by rw [hreq, hstart, hpos, hbegun, hch]; exact h.account
  current r hr := by
    obtain ⟨hlen, hacc, s₀, hlater, hids, hsame⟩ := h.current r (hpos ▸ hr)
    exact ⟨hlen, by rw [hreq]; exact hacc, s₀, hl hlater, hids, hch.trans hsame⟩
  ended r hr := by
    obtain ⟨htodo, hrun, hacc, s₀, hlater, hids⟩ := h.ended r (hended ▸ hr)
    exact ⟨htodo, hrun, by rw [hreq]; exact hacc, s₀, hl hlater, hids⟩

theorem Accounted.snoc {r : Rollover} {requested : List (IDPair × Bool)} (h : Accounted r requested)
    (q : IDPair × Bool) :
    Accounted r (requested ++ [q]) :=
  ⟨h.1, h.2.trans (List.sublist_append_left _ _)⟩

theorem perm_eraseIdx {α : Type} {l : List α} {i : Nat} {a : α} (h : l[i]? = some a) : (a :: l.eraseIdx i).Perm l := by
  obtain ⟨hi, rfl⟩ := List.getElem?_eq_some_iff.mp h
  exact List.getElem_cons_eraseIdx_perm hi

theorem Requests.step {s s' : Loop σ} {e : Event} (h : Requests op pkg bs s)
    (hs : (system op pkg bs).step s e = some s') :
    Requests op pkg bs s' := by
  have hl {s₀} (hlater : Lts.Later (system op pkg bs) Lts.Free s₀ s) : Lts.Later (system op pkg bs) Lts.Free s₀ s' :=
    hlater.step trivial hs
  have hcount := List.perm_iff_count.mp h.account
  have hended {r} (hr : r ∈ s.ended) {requested : List (IDPair × Bool)} (hreq : s.requested.Sublist requested) :
      r.todo = [] ∧ r.running = [] ∧ Accounted r requested ∧
        ∃ s₀, Lts.Later (system op pkg bs) Lts.Free s₀ s' ∧ BeganIn r s₀ := by
    obtain ⟨htodo, hrun, hacc, s₀, hlater, hids⟩ := h.ended r hr
    exact ⟨htodo, hrun, ⟨hacc.1, hacc.2.trans hreq⟩, s₀, hl hlater, hids⟩
  cases step_inv hs with
  | skipped => exact h.frame hl rfl rfl rfl rfl rfl rfl
  | started => exact h.frame hl rfl rfl rfl rfl rfl rfl
  | refused n _ _ hsame => exact h.frame hl rfl rfl rfl rfl rfl hsame
  | backup => exact h.frame hl rfl rfl rfl rfl rfl rfl
  | returned _ he ht =>
    have hch := changes_of_sync (ne_update he) ht
    exact h.frame hl rfl rfl rfl rfl rfl hch
  | synced _ he ht =>
    have hch := changes_of_sync (ne_update he) ht
    exact h.frame hl rfl rfl rfl rfl rfl hch
  | stored => exact h.frame hl rfl rfl rfl rfl rfl rfl
  | acted ht => exact h.frame hl rfl rfl rfl rfl rfl (changes_of_sync (fun n => by simp) ht)
  | exited hp =>
    refine ⟨?_, fun r hr => (by cases hr), fun r hr => hended hr (.refl _)⟩
    have haccount := h.account
    rw [hp] at haccount
    exact haccount
  | @changed n t id isAdded hp _ hch =>
    refine ⟨List.perm_iff_count.mpr fun k => ?_, fun r hr => (by rw [hp] at hr; cases hr),
      fun r hr => hended hr (.refl _)⟩
    have hk := hcount k
    rw [hch]
    cases isAdded <;> simp only [added, List.filter_cons, List.map_cons, List.count_append, List.count_cons,
      List.count_nil, Bool.false_eq_true, if_true, if_false] at hk ⊢ <;> omega
  | @begun ids hp hids =>
    refine ⟨List.perm_iff_count.mpr fun k => ?_, ?_, fun r hr => hended hr (.refl _)⟩
    · have hk := hcount k
      simp only [hp, Position.pending, List.flatten_append, List.flatten_singleton, List.count_append, List.append_nil]
        at hk ⊢
      omega
    · rintro r ⟨⟩
      exact ⟨Nat.zero_le _, ⟨by simp, List.nil_sublist _⟩, s, .step .refl trivial hs, hids, rfl⟩
  | @spawned ids id todo running tried hp hlt =>
    refine ⟨List.perm_iff_count.mpr fun k => ?_, ?_, fun r hr => hended hr (.refl _)⟩
    · have hk := hcount k
      simp only [hp, Position.pending, List.count_append, List.count_cons, List.count_nil] at hk ⊢
      omega
    · rintro r ⟨⟩
      obtain ⟨-, ⟨hperm, hsub⟩, s₀, hlater, hids, hsame⟩ := h.current _ hp
      refine ⟨by rw [List.length_append]; exact hlt, ⟨?_, hsub⟩, s₀, hl hlater, hids, hsame⟩
      refine .trans (List.perm_iff_count.mpr fun k => ?_) hperm
      simp only [List.count_append, List.count_cons, List.count_nil]
      omega
  | @tried ids todo running tried i id ok hp hi =>
    have herase := List.perm_iff_count.mp (perm_eraseIdx hi)
    refine ⟨List.perm_iff_count.mpr fun k => ?_, ?_, fun r hr => hended hr (List.sublist_append_left _ _)⟩
    · have hk := hcount k
      have hk' := herase k
      simp only [hp, Position.pending, List.map_append, List.map_singleton, List.count_append, List.count_cons,
        List.count_nil] at hk hk' ⊢
      omega
    · rintro r ⟨⟩
      obtain ⟨hlen, ⟨hperm, hsub⟩, s₀, hlater, hids, hsame⟩ := h.current _ hp
      refine ⟨(List.length_eraseIdx_le _ _).trans hlen, ⟨?_, hsub.append (.refl _)⟩, s₀, hl hlater, hids, hsame⟩
      refine .trans (List.perm_iff_count.mpr fun k => ?_) hperm
      have hk' := herase k
      simp only [List.map_append, List.map_singleton, List.count_append, List.count_cons, List.count_nil] at hk' ⊢
      omega
  | @ended ids tried hp =>
    refine ⟨?_, fun r hr => (by cases hr), fun r hr => ?_⟩
    · have haccount := h.account
      rw [hp] at haccount
      exact haccount
    · rcases List.mem_append.mp hr with hr | hr
      · exact hended hr (.refl _)
      · rw [List.mem_singleton.mp hr]
        obtain ⟨-, hacc, s₀, hlater, hids, -⟩ := h.current _ hp
        exact ⟨rfl, rfl, hacc, s₀, hl hlater, hids⟩
  | @requested i id ok hi =>
    have herase := List.perm_iff_count.mp (perm_eraseIdx hi)
    refine ⟨List.perm_iff_count.mpr fun k => ?_, fun r hr => ?_, fun r hr => hended hr (List.sublist_append_left _ _)⟩
    · have hk := hcount k
      have hk' := herase k
      simp only [List.map_append, List.map_singleton, List.count_append, List.count_cons, List.count_nil] at hk hk' ⊢
      omega
    · obtain ⟨hlen, hacc, s₀, hlater, hids, hsame⟩ := h.current r hr
      exact ⟨hlen, hacc.snoc _, s₀, hl hlater, hids, hsame⟩

theorem requests {s : Loop σ} (h : Lts.Reach (system op pkg bs) Lts.Free s) : Requests op pkg bs s := by
  refine h.invariant (Requests op pkg bs) ?_ fun s e s' _ ih _ hs => ih.step hs
  rintro s ⟨node, st, -, rfl⟩
  exact ⟨.refl _, fun r hr => (by cases hr), fun r hr => (by cases hr)⟩

/-- `InitiateBackups` returns no error exactly if all its requests went
through. -/
theorem err_none_iff {r : Rollover} : r.err = none ↔ ∀ t ∈ r.tried, t.2 = true := by
  simp [Rollover.err]

/-- **Every backup is asked for.** In every run: the requests made, those of
added keys still to be made and those of a rollover still to be made are, one
for one, the keys the event loop added and the keys the rollovers found. A
rollover finds all keys cached when it begins; the loop takes no key result
while it lasts; at most ten of its requests run at once; and when it ends it
has requested a backup of each of its keys once, and reports no error exactly
if each request went through. -/
theorem backups_requested {s : Loop σ} (h : Lts.Reach (system op pkg bs) Lts.Free s) :
    (s.requested.map (·.1) ++ s.starting ++ s.position.pending).Perm (added s.base.changes ++ s.begun.flatten) ∧
    (∀ r, s.position = .initiateBackups r → r.running.length ≤ initiateBackupsConcurrency ∧
      ∃ s₀, Lts.Later (system op pkg bs) Lts.Free s₀ s ∧ BeganIn r s₀ ∧ s.base.changes = s₀.base.changes) ∧
    ∀ r ∈ s.ended, ∃ s₀, Lts.Later (system op pkg bs) Lts.Free s₀ s ∧ BeganIn r s₀ ∧ (r.tried.map (·.1)).Nodup ∧
      (∀ k, s₀.base.cache.Has k ↔ k ∈ r.tried.map (·.1)) ∧ r.tried.Sublist s.requested ∧
      (r.err = none ↔ ∀ k, s₀.base.cache.Has k → (k, true) ∈ r.tried) := by
  have hrequests := requests h
  refine ⟨hrequests.account, fun r hr => ?_, fun r hr => ?_⟩
  · obtain ⟨hlen, -, hbegan⟩ := hrequests.current r hr
    exact ⟨hlen, hbegan⟩
  · obtain ⟨htodo, hrun, ⟨hperm, hsub⟩, s₀, hlater, hids⟩ := hrequests.ended r hr
    rw [htodo, hrun, List.append_nil, List.append_nil] at hperm
    have hkeys : (r.tried.map (·.1)).Perm s₀.base.cache.keys.keys := hperm.trans hids
    have hnodup : (r.tried.map (·.1)).Nodup := hkeys.nodup_iff.mpr (GoMap.nodup_keys _)
    have hhas (k : IDPair) : s₀.base.cache.Has k ↔ k ∈ r.tried.map (·.1) := hkeys.mem_iff.symm
    refine ⟨s₀, hlater, hids, hnodup, hhas, hsub, err_none_iff.trans ⟨fun hall k hk => ?_, fun hall t ht => ?_⟩⟩
    · obtain ⟨⟨k', ok⟩, ht, rfl⟩ := List.mem_map.mp ((hhas k).mp hk)
      cases hall _ ht
      exact ht
    · have hsame : t = (t.1, true) := List.inj_on_of_nodup_map hnodup ht
        (hall t.1 ((hhas _).mpr (List.mem_map_of_mem ht))) rfl
      rw [hsame]

end Runs

theorem backups_requested_overlapping :
    ∃ (s s₀ : Loop (Redis Unit)), Lts.Reach (system .numbered .bytes BackupService.redisBackups) Lts.Free s ∧
      s.requested = [(⟨1, 7⟩, true), (⟨1, 7⟩, false)] ∧ s.ended.map Rollover.err = [some ⟨1, 7⟩] ∧
      Lts.Later (system .numbered .bytes BackupService.redisBackups) Lts.Free s₀ s ∧ s₀.base.cache.Has ⟨1, 7⟩ := by
  have hrun : ((system .numbered .bytes BackupService.redisBackups).run (start [] .empty) overlapping).any (fun s =>
      s.requested = [(⟨1, 7⟩, true), (⟨1, 7⟩, false)] ∧ s.ended = [⟨[⟨1, 7⟩], [], [], [(⟨1, 7⟩, false)]⟩]) := by
    decide +kernel
  obtain ⟨s, hs, hend⟩ := (Option.any_eq_true _ _).mp hrun
  obtain ⟨hrequested, hended⟩ := of_decide_eq_true hend
  have hreach : Lts.Reach (system .numbered .bytes BackupService.redisBackups) Lts.Free s :=
    .of_run (.init ⟨[], .empty, fun _ => rfl, rfl⟩) (fun _ _ _ => trivial) hs
  obtain ⟨s₀, hlater, -, -, hhas, -⟩ :=
    (backups_requested hreach).2.2 _ (by rw [hended]; exact List.mem_singleton_self _)
  exact ⟨s, s₀, hreach, hrequested, by rw [hended]; rfl, hlater, (hhas _).mpr (by decide)⟩

end Loop

end TeeProxy.Wallets
