/-
Key results from the node to the wallet cache: `resultH` with its detached
tasks, and behind them `ProcessAndStore`, `KeyActions` and the event loop.

`resultH` acknowledges a response before its task runs, and the tasks of two
responses run in any order, so the node's order of posting is not the order
in which the messages enter `KeyActions`. A response that is posted after
the task of another has completed does come after it.
-/
import TeeProxy.Result.Pipeline
import TeeProxy.Server.Results

namespace TeeProxy.Server

/-- The response of a call. -/
def Handler.response? : Handler → Option ActionResponse
  | .refused => none
  | .decoded r | .locked r | .read r _ | .spawned r | .storing r | .acking r | .returned r => some r

/-- The server and what is behind it. `begun` are the calls of `resultH` whose
`storeResult` has called `ProcessAndStore`, in that order, so that the k-th
request of the result service comes from the k-th of them. Of the past: the
calls whose response passed the checks, and for every call the calls whose
`storeResult` was complete when its request arrived. -/
structure Intake where
  server : State
  pipeline : Result.Pipeline
  begun : List Nat
  accepted : List Nat
  before : List (List Nat)

/-- A step of the server, the start of a task's `ProcessAndStore`, or a step of
the result service. -/
inductive IntakeEvent
  | server (e : Event)
  | process (n : Nat)
  | pipeline (e : Result.Delivery)

namespace Intake

/-- What a handler's task stores. -/
def response? (s : Intake) (n : Nat) : Option ActionResponse := s.server.handlers[n]?.bind (·.response?)

/-- The call stores its response itself. -/
def storesItself (s : Intake) (n : Nat) : Bool := match s.server.handlers[n]? with
  | some (.storing _) => true
  | _ => false

/-- The call whose `storeResult` returns with the event. -/
def finishes (s : Intake) : Event → Option Nat
  | .task n => some n
  | .resultH n => if s.storesItself n then some n else none
  | .start _ | .close => none

/-- `ProcessAndStore` has returned for the call. -/
def Processed (s : Intake) (n : Nat) : Prop :=
  n ∈ s.begun ∧ ∀ c ∈ s.pipeline.service.calls, s.begun[c.number]? ≠ some n

instance (s : Intake) (n : Nat) : Decidable (s.Processed n) :=
  inferInstanceAs (Decidable (n ∈ s.begun ∧ ∀ c ∈ s.pipeline.service.calls, s.begun[c.number]? ≠ some n))

/-- The calls whose `storeResult` was complete when the request of `n` arrived. -/
def doneBefore (s : Intake) (n : Nat) : List Nat := s.before[n]?.getD []

/-- A request that arrives has the calls complete now behind it. -/
def arrive (s : Intake) : Event → List (List Nat)
  | .start _ => s.before ++ [s.server.completed]
  | .resultH _ | .task _ | .close => s.before

section System

variable (op : OpPkg) (pkg : Result.SigningPkg) (chainID : UInt64) (wallets : Wallets.WalletPkg)

/-- A task is over once its call is. -/
def step (s : Intake) : IntakeEvent → Option Intake
  | .server e =>
    if ∀ n ∈ s.finishes e, s.Processed n then
      (Server.step s.server e).map fun server => { s with
        server
        before := s.arrive e }
    else none
  | .process n => match s.response? n with
    | none => none
    | some r =>
      if (n ∈ s.server.tasks ∨ s.storesItself n) ∧ n ∉ s.begun then
        (Result.Pipeline.step op pkg chainID wallets s.pipeline (.process r)).map fun pipeline => { s with
          pipeline
          begun := s.begun ++ [n]
          accepted := if Result.Pipeline.Accepts op pkg chainID s.pipeline r then s.accepted ++ [n] else s.accepted }
      else none
  | .pipeline (.process _) => none
  | .pipeline e => (Result.Pipeline.step op pkg chainID wallets s.pipeline e).map fun pipeline => { s with pipeline }

/-- A server that has answered nothing, with a wallet cache. -/
def start (cache : Wallets.Cache) : Intake := ⟨Server.start, ⟨Result.start, ∅, cache, []⟩, [], [], []⟩

/-- The server, the tasks it detaches and the result service. -/
def system (cache : Wallets.Cache) : Lts.System Intake IntakeEvent where
  init s := s = start cache
  step := step op pkg chainID wallets

end System

/-- The calls whose message entered `KeyActions`, in the order of the messages. -/
def entered (s : Intake) : List Nat :=
  (s.pipeline.service.sent.filter (·.channel = .keyActions)).filterMap fun x => s.begun[x.call]?

/-- The calls with an accepted key result, in the order of posting. -/
def keyPosted (op : OpPkg) (s : Intake) : List Nat :=
  (List.range s.server.handlers.length).filter fun n =>
    n ∈ s.accepted ∧ (s.response? n).any fun r => Result.hook op r.result = some .keyActions

/-- Every call has returned, every task has run, and `KeyActions` is empty. -/
structure Settled (s : Intake) : Prop where
  handlers : ∀ h ∈ s.server.handlers, h.over = true
  tasks : s.server.tasks = []
  received : Result.Pipeline.keyResults s.pipeline.service.onChannels = []

/-! ## What a step can do -/

section Inversion

variable {op : OpPkg} {pkg : Result.SigningPkg} {chainID : UInt64} {wallets : Wallets.WalletPkg} {s s' : Intake}

inductive Step (op : OpPkg) (pkg : Result.SigningPkg) (chainID : UInt64) (wallets : Wallets.WalletPkg) (s : Intake) :
    IntakeEvent → Intake → Prop
  | server {e server} : (∀ n ∈ s.finishes e, s.Processed n) → Server.step s.server e = some server →
      Step op pkg chainID wallets s (.server e) { s with
        server
        before := s.arrive e }
  | process {n r pipeline} : s.response? n = some r → n ∉ s.begun →
      Result.Pipeline.step op pkg chainID wallets s.pipeline (.process r) = some pipeline →
      Step op pkg chainID wallets s (.process n) { s with
        pipeline
        begun := s.begun ++ [n]
        accepted := if Result.Pipeline.Accepts op pkg chainID s.pipeline r then s.accepted ++ [n] else s.accepted }
  | pipeline {e pipeline} : (∀ r, e ≠ .process r) →
      Result.Pipeline.step op pkg chainID wallets s.pipeline e = some pipeline →
      Step op pkg chainID wallets s (.pipeline e) { s with pipeline }

theorem step_inv {e : IntakeEvent} (h : step op pkg chainID wallets s e = some s') :
    Step op pkg chainID wallets s e s' := by
  cases e with
  | server e =>
    simp only [step] at h
    split at h
    next hdone =>
      obtain ⟨server, hs, rfl⟩ := Option.map_eq_some_iff.mp h
      exact .server hdone hs
    next => cases h
  | process n =>
    simp only [step] at h
    split at h
    · cases h
    next r hr =>
    split at h
    next hnew =>
      obtain ⟨pipeline, hs, rfl⟩ := Option.map_eq_some_iff.mp h
      exact .process hr hnew.2 hs
    next => cases h
  | pipeline e =>
    have hmap : ∀ {e : Result.Delivery}, (∀ r, e ≠ .process r) →
        (Result.Pipeline.step op pkg chainID wallets s.pipeline e).map (fun pipeline => { s with pipeline }) = some s' →
        Step op pkg chainID wallets s (.pipeline e) s' := by
      intro e hne hmap
      obtain ⟨pipeline, hs, rfl⟩ := Option.map_eq_some_iff.mp hmap
      exact .pipeline hne hs
    cases e with
    | process r => cases h
    | setIdentity | passOn | store | expire | receive => exact hmap (fun r hr => by cases hr) h

variable {cache : Wallets.Cache}

/-- A key result is passed on only where `KeyActions` takes its message. -/
def Passes (op : OpPkg) (s : Intake) : IntakeEvent → Prop
  | .pipeline e => s.pipeline.Passes op .keyActions e
  | .server _ | .process _ => True

instance (op : OpPkg) (s : Intake) : DecidablePred (Passes op s)
  | .pipeline e => inferInstanceAs (Decidable (s.pipeline.Passes op .keyActions e))
  | .server _ | .process _ => .isTrue trivial

/-- The runs in which no key result is dropped. The other channels may fill. -/
abbrev Runs (op : OpPkg) (pkg : Result.SigningPkg) (chainID : UInt64) (wallets : Wallets.WalletPkg)
    (cache : Wallets.Cache) : Intake → Prop :=
  Lts.Reach (system op pkg chainID wallets cache) (Passes op)

/-- The result service and its surroundings run as they do alone. -/
theorem Runs.pipeline (h : Runs op pkg chainID wallets cache s) :
    Lts.Reach (Result.Pipeline.system op pkg chainID wallets) Lts.Free s.pipeline := by
  refine h.simulation Intake.pipeline ?_ ?_
  · rintro s rfl
    exact ⟨cache, rfl⟩
  · intro s e s' _ _ _ hs
    cases step_inv hs with
    | server => exact .inl rfl
    | @process _ r _ _ _ hp => exact .inr ⟨.process r, trivial, hp⟩
    | pipeline _ hp => exact .inr ⟨_, trivial, hp⟩

theorem Runs.server (h : Runs op pkg chainID wallets cache s) : Lts.Reach Server.system Lts.Free s.server := by
  refine h.simulation Intake.server ?_ ?_
  · rintro s rfl
    rfl
  · intro s e s' _ _ _ hs
    cases step_inv hs with
    | server _ hp => exact .inr ⟨_, trivial, hp⟩
    | process => exact .inl rfl
    | pipeline => exact .inl rfl

end Inversion

/-! ## The invariant -/

section Invariant

variable {op : OpPkg} {pkg : Result.SigningPkg} {chainID : UInt64} {wallets : Wallets.WalletPkg} {s s' : Intake}
  {cache : Wallets.Cache}

/-- What ties the calls of `resultH` to the calls and messages behind them. No
message came before one whose call was complete when the other was posted. -/
structure IntakeOK (op : OpPkg) (s : Intake) : Prop where
  length : s.pipeline.service.requests.length = s.begun.length
  posted : ∀ (k n : Nat), s.begun[k]? = some n →
    ∃ r, s.response? n = some r ∧ s.pipeline.service.requests[k]? = some r
  begun : s.begun.Nodup
  processed : ∀ n ∈ s.server.completed, s.Processed n
  arrived : s.before.length = s.server.handlers.length
  before : ∀ n, ∀ m ∈ s.doneBefore n, m ∈ s.server.completed ∧ m < n
  order : s.pipeline.service.sent.Pairwise fun x y =>
    ∀ m n, s.begun[x.call]? = some m → s.begun[y.call]? = some n → n ∉ s.doneBefore m
  accepted : ∀ n ∈ s.accepted, n ∈ s.begun
  calls : ∀ c ∈ s.pipeline.service.calls, ∃ n ∈ s.accepted, s.begun[c.number]? = some n
  sent : ∀ x ∈ s.pipeline.service.sent, ∃ n ∈ s.accepted, s.begun[x.call]? = some n
  passed : ∀ (k n : Nat) (r : ActionResponse), s.begun[k]? = some n → n ∈ s.accepted →
    s.response? n = some r → Result.hook op r.result = some .keyActions →
    (∃ call ∈ s.pipeline.service.calls, call.number = k ∧ call.hooked = false) ∨
      ⟨.keyActions, k, r⟩ ∈ s.pipeline.service.sent

theorem response?_lt {n : Nat} {r : ActionResponse} (h : s.response? n = some r) : n < s.server.handlers.length := by
  rw [response?, Option.bind_eq_some_iff] at h
  obtain ⟨handler, hn, -⟩ := h
  exact (List.getElem?_eq_some_iff.mp hn).1

theorem IntakeOK.lt (h : IntakeOK op s) {n : Nat} (hn : n ∈ s.begun) : n < s.server.handlers.length := by
  obtain ⟨k, hk⟩ := List.mem_iff_getElem?.mp hn
  obtain ⟨r, hr, -⟩ := h.posted k n hk
  exact response?_lt hr

theorem server_view {e : Event} {server : State} (hs : Server.Step s.server e server) :
    (∀ n r, s.response? n = some r → { s with server }.response? n = some r) ∧
      (∀ n ∈ s.server.completed, n ∈ server.completed) ∧
      (∀ n ∈ server.completed, n ∈ s.server.completed ∨ n ∈ s.finishes e) ∧
      server.handlers.length + s.before.length = s.server.handlers.length + (s.arrive e).length := by
  have happend : ∀ (h : Handler) (n r), s.response? n = some r →
      ((s.server.handlers ++ [h])[n]?.bind (·.response?)) = some r := by
    intro h n r hr
    rw [List.getElem?_append_left (response?_lt hr)]
    exact hr
  have hset : ∀ (m : Nat) (h h' : Handler), s.server.handlers[m]? = some h → h'.response? = h.response? →
      ∀ n r, s.response? n = some r → ((s.server.handlers.set m h')[n]?.bind (·.response?)) = some r := by
    intro m h h' hm heq n r hr
    rw [List.getElem?_set]
    split
    next hmn =>
      subst hmn
      rw [if_pos (response?_lt hr), Option.bind_some, heq]
      rw [response?, hm] at hr
      exact hr
    next => exact hr
  cases hs with
  | refused | started =>
    exact ⟨happend _, fun n hn => hn, fun n hn => .inl hn, by simp [arrive, Nat.add_right_comm, Nat.add_assoc]⟩
  | locked hn | read hn | spawned hn | returned hn =>
    exact ⟨hset _ _ _ hn rfl, fun n hn => hn, fun n hn => .inl hn, by simp [arrive]⟩
  | unlocked hn =>
    rcases hn with ⟨hn, rfl⟩ | ⟨hn, rfl⟩ <;>
      exact ⟨hset _ _ _ hn rfl, fun n hn => hn, fun n hn => .inl hn, by simp [arrive]⟩
  | @stored n r hn =>
    refine ⟨hset _ _ _ hn rfl, fun n hn => List.mem_append_left _ hn, fun m hm => ?_, by simp [arrive]⟩
    rcases List.mem_append.mp hm with hm | hm
    · exact .inl hm
    · right
      rw [List.mem_singleton.mp hm, finishes, storesItself, hn]
      rfl
  | @task n hn =>
    refine ⟨fun n r hr => hr, fun n hn => List.mem_append_left _ hn, fun m hm => ?_, rfl⟩
    rcases List.mem_append.mp hm with hm | hm
    · exact .inl hm
    · exact .inr (by rw [List.mem_singleton.mp hm]; rfl)
  | closeLocked | flagged | closeUnlocked | shutDown | waited | closed =>
    exact ⟨fun n r hr => hr, fun n hn => hn, fun n hn => .inl hn, rfl⟩

/-- A request that arrives changes nothing for the calls there are. -/
theorem doneBefore_concat (h : s.before.length = s.server.handlers.length) (server : State) (l : List Nat) (n : Nat) :
    { s with server, before := s.before ++ [l] }.doneBefore n =
      if n = s.server.handlers.length then l else s.doneBefore n := by
  simp only [doneBefore]
  split
  next heq => rw [heq, ← h, List.getElem?_concat_length]; rfl
  next hne =>
    rw [List.getElem?_append]
    split
    · rfl
    next hge =>
      rw [List.getElem?_eq_none (l := s.before) (by omega), List.getElem?_eq_none (by simp; omega)]

theorem IntakeOK.server (h : IntakeOK op s) {e : Event} {server : State} (hdone : ∀ n ∈ s.finishes e, s.Processed n)
    (hs : Server.Step s.server e server) :
    IntakeOK op { s with server, before := s.arrive e } := by
  obtain ⟨hresp, hkeep, hnew, hlen⟩ := server_view hs
  have hsame : ∀ n ∈ s.begun, ∀ r, { s with server }.response? n = some r → s.response? n = some r := by
    intro n hn r hr
    obtain ⟨k, hk⟩ := List.mem_iff_getElem?.mp hn
    obtain ⟨r', hr', -⟩ := h.posted k n hk
    rw [← hr, hresp n r' hr', hr']
  have hposted : ∀ (k n : Nat), s.begun[k]? = some n →
      ∃ r, { s with server }.response? n = some r ∧ s.pipeline.service.requests[k]? = some r := by
    intro k n hk
    obtain ⟨r, hr, hreq⟩ := h.posted k n hk
    exact ⟨r, hresp n r hr, hreq⟩
  have harrived : (s.arrive e).length = server.handlers.length := by
    have := h.arrived
    omega
  have hprocessed : ∀ n ∈ server.completed, s.Processed n :=
    fun n hn => (hnew n hn).elim (h.processed n) (hdone n)
  have hpassed := fun k n r hk hn hr => h.passed k n r hk hn (hsame n (h.accepted n hn) r hr)
  cases e with
  | resultH | task | close =>
    exact ⟨h.length, hposted, h.begun, hprocessed, harrived,
      fun n m hm => ⟨hkeep m (h.before n m hm).1, (h.before n m hm).2⟩, h.order, h.accepted, h.calls, h.sent, hpassed⟩
  | start body =>
    refine ⟨h.length, hposted, h.begun, hprocessed, harrived, fun n m hm => ?_, h.order.imp fun hxy m n hm hn => ?_,
      h.accepted, h.calls, h.sent, hpassed⟩
    · rw [arrive, doneBefore_concat h.arrived] at hm
      split at hm
      next heq => exact ⟨hkeep m hm, heq ▸ h.lt (h.processed m hm).1⟩
      next => exact ⟨hkeep m (h.before n m hm).1, (h.before n m hm).2⟩
    · rw [arrive, doneBefore_concat h.arrived, if_neg (Nat.ne_of_lt (h.lt (List.mem_of_getElem? hm)))]
      exact hxy m n hm hn

/-- The next call of `ProcessAndStore` is numbered: the older calls and
messages belong where they did. -/
theorem IntakeOK.numbered (h : IntakeOK op s) {n : Nat} {r : ActionResponse} (hr : s.response? n = some r)
    (hnew : n ∉ s.begun) :
    IntakeOK op { s with
      pipeline := { s.pipeline with
        service := { s.pipeline.service with requests := s.pipeline.service.requests ++ [r] } }
      begun := s.begun ++ [n] } := by
  have hold : ∀ {k m : Nat}, s.begun[k]? = some m → (s.begun ++ [n])[k]? = some m :=
    fun hk => Lts.getElem?_snoc.mpr (.inl hk)
  -- a call or message of before has its number below `begun.length`
  have hback : ∀ {k m m' : Nat}, s.begun[k]? = some m' → (s.begun ++ [n])[k]? = some m → s.begun[k]? = some m := by
    intro k m m' hk hk'
    rw [hk, ← hold hk, hk']
  refine ⟨by simp [h.length], fun k m hk => ?_, ?_, fun m hm => ?_, h.arrived, h.before,
    h.order.imp_of_mem fun {x y} hx hy hxy m m' hm hm' => ?_, fun m hm => List.mem_append_left _ (h.accepted m hm),
    fun c hc => ?_, fun x hx => ?_, fun k m r' hk hm hr' hh => ?_⟩
  · rcases Lts.getElem?_snoc.mp hk with hk | ⟨rfl, rfl⟩
    · obtain ⟨r', hr', hreq⟩ := h.posted k m hk
      exact ⟨r', hr', Lts.getElem?_snoc.mpr (.inl hreq)⟩
    · exact ⟨r, hr, Lts.getElem?_snoc.mpr (.inr ⟨h.length.symm, rfl⟩)⟩
  · refine List.nodup_append.mpr ⟨h.begun, List.nodup_singleton n, fun a ha b hb heq => hnew ?_⟩
    rw [← List.mem_singleton.mp hb, ← heq]
    exact ha
  · obtain ⟨hmem, hno⟩ := h.processed m hm
    refine ⟨List.mem_append_left _ hmem, fun c hc heq => ?_⟩
    obtain ⟨a, -, ha⟩ := h.calls c hc
    exact hno c hc (hback ha heq)
  · obtain ⟨a, -, ha⟩ := h.sent x hx
    obtain ⟨b, -, hb⟩ := h.sent y hy
    exact hxy m m' (hback ha hm) (hback hb hm')
  · obtain ⟨a, ha, hk⟩ := h.calls c hc
    exact ⟨a, ha, hold hk⟩
  · obtain ⟨a, ha, hk⟩ := h.sent x hx
    exact ⟨a, ha, hold hk⟩
  · rcases Lts.getElem?_snoc.mp hk with hk | ⟨-, rfl⟩
    · exact h.passed k m r' hk hm hr' hh
    · exact absurd (h.accepted _ hm) hnew

theorem IntakeOK.admitted (h : IntakeOK op s) {k n : Nat} {r : ActionResponse} (hk : s.begun[k]? = some n)
    (hopen : n ∉ s.server.completed) :
    IntakeOK op { s with
      pipeline := { s.pipeline with
        service := { s.pipeline.service with calls := s.pipeline.service.calls ++ [⟨k, r, false⟩] } }
      accepted := s.accepted ++ [n] } := by
  refine ⟨h.length, h.posted, h.begun, fun m hm => ⟨(h.processed m hm).1, fun c hc => ?_⟩, h.arrived, h.before, h.order,
    fun m hm => ?_, fun c hc => ?_, fun x hx => ?_, fun k' m r' hk' hm hr' hh => ?_⟩
  · rcases List.mem_append.mp hc with hc | hc
    · exact (h.processed m hm).2 c hc
    · rw [List.mem_singleton.mp hc]
      dsimp only
      rw [hk]
      rintro ⟨⟩
      exact hopen hm
  · rcases List.mem_append.mp hm with hm | hm
    · exact h.accepted m hm
    · rw [List.mem_singleton.mp hm]
      exact List.mem_of_getElem? hk
  · rcases List.mem_append.mp hc with hc | hc
    · obtain ⟨a, ha, hnum⟩ := h.calls c hc
      exact ⟨a, List.mem_append_left _ ha, hnum⟩
    · rw [List.mem_singleton.mp hc]
      exact ⟨n, List.mem_append_right _ (List.mem_singleton_self n), hk⟩
  · obtain ⟨a, ha, hnum⟩ := h.sent x hx
    exact ⟨a, List.mem_append_left _ ha, hnum⟩
  · rcases List.mem_append.mp hm with hm | hm
    · rcases h.passed k' m r' hk' hm hr' hh with ⟨call, hcall, hnum⟩ | hsent
      · exact .inl ⟨call, List.mem_append_left _ hcall, hnum⟩
      · exact .inr hsent
    · rw [List.mem_singleton.mp hm] at hk'
      have hkk : k = k' := by
        rw [← List.getElem?_inj (List.getElem?_eq_some_iff.mp hk).1 h.begun, hk, hk']
      exact .inl ⟨_, List.mem_append_right _ (List.mem_singleton_self _), hkk, rfl⟩

theorem IntakeOK.process (h : IntakeOK op s) {n : Nat} {r : ActionResponse} {pipeline : Result.Pipeline}
    (hr : s.response? n = some r) (hnew : n ∉ s.begun)
    (hs : Result.Pipeline.Step op pkg chainID wallets s.pipeline (.process r) pipeline) :
    IntakeOK op { s with
      pipeline
      begun := s.begun ++ [n]
      accepted := if Result.Pipeline.Accepts op pkg chainID s.pipeline r then s.accepted ++ [n] else s.accepted } := by
  have hnumbered := h.numbered hr hnew
  cases hs with
  | turnedAway hno =>
    rw [if_neg hno]
    exact hnumbered
  | accepted hyes =>
    rw [if_pos hyes]
    exact hnumbered.admitted (Lts.getElem?_snoc.mpr (.inr ⟨h.length, rfl⟩)) fun hdone => hnew (h.processed n hdone).1

/-- A call that is set to hooked stays a call with its number. -/
theorem number_of_mem_set {calls : List Result.Call} {i number : Nat} {r : ActionResponse} {c : Result.Call}
    (hi : calls[i]? = some ⟨number, r, false⟩) (hc : c ∈ calls.set i ⟨number, r, true⟩) :
    ∃ c' ∈ calls, c'.number = c.number := by
  rcases List.mem_or_eq_of_mem_set hc with hc | rfl
  · exact ⟨c, hc, rfl⟩
  · exact ⟨_, List.mem_of_getElem? hi, rfl⟩

/-- The response of a call that has not been through its hooks is passed on. -/
theorem IntakeOK.passedOn (h : IntakeOK op s) (ha : Result.Authentic op pkg chainID s.pipeline.service) {i number : Nat}
    {r : ActionResponse} {onChannels : List Result.Message}
    (hi : s.pipeline.service.calls[i]? = some ⟨number, r, false⟩)
    (hroom : Result.hook op r.result = some .keyActions → s.pipeline.Room .keyActions) :
    IntakeOK op { s with pipeline := { s.pipeline with service := { s.pipeline.service with
      calls := s.pipeline.service.calls.set i ⟨number, r, true⟩
      onChannels
      sent := s.pipeline.service.sent ++ s.pipeline.passedOn op number r } } } := by
  have hmem := List.mem_of_getElem? hi
  obtain ⟨n, hacc, hn⟩ := h.calls _ hmem
  refine ⟨h.length, h.posted, h.begun, fun m hm => ⟨(h.processed m hm).1, fun c hc => ?_⟩, h.arrived, h.before,
    ?_, h.accepted, fun c hc => ?_, fun x hx => ?_, fun k m r' hk hm hr' hh => ?_⟩
  · obtain ⟨c', hc', hnum⟩ := number_of_mem_set hi hc
    rw [← hnum]
    exact (h.processed m hm).2 c' hc'
  · refine List.pairwise_append.mpr ⟨h.order, ?_, fun x hx y hy m m' hm hm' hdone => ?_⟩
    · rcases Result.Pipeline.passedOn_cases op s.pipeline number r with hnone | ⟨c, hone⟩
      · rw [hnone]; exact .nil
      · rw [hone]; exact List.pairwise_singleton _ _
    · -- the call of the new message is not complete
      rw [Result.Pipeline.call_of_passedOn hy] at hm'
      exact (h.processed m' (h.before m m' hdone).1).2 _ hmem hm'
  · obtain ⟨c', hc', hnum⟩ := number_of_mem_set hi hc
    rw [← hnum]
    exact h.calls c' hc'
  · rcases List.mem_append.mp hx with hx | hx
    · exact h.sent x hx
    · rw [Result.Pipeline.call_of_passedOn hx]
      exact ⟨n, hacc, hn⟩
  · rcases h.passed k m r' hk hm hr' hh with ⟨call, hcall, hnum, hf⟩ | hsent
    · obtain ⟨j, hj⟩ := List.mem_iff_getElem?.mp hcall
      by_cases hji : j = i
      · right
        rw [hji, hi] at hj
        cases hj
        subst hnum
        obtain ⟨r'', hr'', hreq⟩ := h.posted _ m hk
        rw [(ha.calls _ hmem).1, Option.some.injEq] at hreq
        have hrr : r' = r := by
          have heq : some r' = some r'' := hr'.symm.trans hr''
          exact (Option.some.inj heq).trans hreq.symm
        subst hrr
        refine List.mem_append_right _ ?_
        rw [Result.Pipeline.passedOn_of_room hh (hroom hh)]
        exact List.mem_singleton_self _
      · left
        exact ⟨call, List.mem_of_getElem? (i := j) (by rw [List.getElem?_set_ne (Ne.symm hji), hj]), hnum, hf⟩
    · exact .inr (List.mem_append_left _ hsent)

theorem IntakeOK.pipeline (h : IntakeOK op s) (ha : Result.Authentic op pkg chainID s.pipeline.service)
    {e : Result.Delivery} {pipeline : Result.Pipeline} (hne : ∀ r, e ≠ .process r)
    (hpasses : s.pipeline.Passes op .keyActions e)
    (hs : Result.Pipeline.Step op pkg chainID wallets s.pipeline e pipeline) :
    IntakeOK op { s with pipeline } := by
  cases hs with
  | identified | expired | received =>
    exact ⟨h.length, h.posted, h.begun, h.processed, h.arrived, h.before, h.order, h.accepted, h.calls, h.sent,
      h.passed⟩
  | turnedAway | accepted => exact absurd rfl (hne _)
  | passedOn hi => exact h.passedOn ha hi (hpasses _ hi)
  | @stored i number r _ _ _ _ _ _ hi =>
    refine ⟨h.length, h.posted, h.begun, fun m hm => ⟨(h.processed m hm).1, fun c hc => ?_⟩, h.arrived, h.before,
      h.order, h.accepted, fun c hc => h.calls c (List.mem_of_mem_eraseIdx hc), h.sent,
      fun k m r' hk hm hr' hh => ?_⟩
    · exact (h.processed m hm).2 c (List.mem_of_mem_eraseIdx hc)
    · rcases h.passed k m r' hk hm hr' hh with ⟨call, hcall, hnum, hf⟩ | hsent
      · -- the call that is over has been through its hooks
        obtain ⟨j, hj⟩ := List.mem_iff_getElem?.mp hcall
        refine .inl ⟨call, List.mem_eraseIdx_iff_getElem?.mpr ⟨j, fun hji => ?_, hj⟩, hnum, hf⟩
        rw [hji, hi] at hj
        cases hj
        cases hf
      · exact .inr hsent

theorem intakeOK_of_runs (h : Runs op pkg chainID wallets cache s) : IntakeOK op s := by
  refine h.invariant (IntakeOK op) ?_ ?_
  · rintro s rfl
    refine ⟨rfl, fun k n hk => ?_, List.nodup_nil, fun n hn => ?_, rfl, fun n m hm => ?_, .nil, fun n hn => ?_,
      fun c hc => ?_, fun x hx => ?_, fun k n r hk => ?_⟩
    · cases hk
    · cases hn
    · cases hm
    · cases hn
    · cases hc
    · cases hx
    · cases hk
  · intro s e s' hreach ih hpasses hs
    cases step_inv hs with
    | server hdone hp => exact ih.server hdone (Server.step_inv hp)
    | process hr hnew hp => exact ih.process hr hnew (Result.Pipeline.step_inv hp)
    | pipeline hne hp =>
      exact ih.pipeline (Result.authentic (Result.Pipeline.reach_service (Runs.pipeline hreach))) hne hpasses
        (Result.Pipeline.step_inv hp)

end Invariant

/-! ## The order of key results -/

section Order

variable {op : OpPkg} {pkg : Result.SigningPkg} {chainID : UInt64} {wallets : Wallets.WalletPkg} {s : Intake}
  {cache : Wallets.Cache}

theorem numbered_of_runs (h : Runs op pkg chainID wallets cache s) : s.pipeline.Numbered := by
  refine h.pipeline.invariant Result.Pipeline.Numbered ?_ ?_
  · rintro s ⟨cache, rfl⟩
    exact ⟨List.nodup_nil, List.nodup_nil, fun c hc => by cases hc⟩
  · intro s e s' hreach ih _ hs
    exact ih.step (Result.authentic (Result.Pipeline.reach_service hreach)) (Result.Pipeline.step_inv hs)

theorem drains_of_runs (h : Runs op pkg chainID wallets cache s) : s.pipeline.Drains op wallets cache := by
  refine h.invariant (fun s => s.pipeline.Drains op wallets cache) ?_ ?_
  · rintro s rfl
    rfl
  · intro s e s' _ ih _ hs
    cases step_inv hs with
    | server => exact ih
    | process _ _ hp => exact ih.step (Result.Pipeline.step_inv hp)
    | pipeline _ hp => exact ih.step (Result.Pipeline.step_inv hp)

theorem entered_nodup (h : IntakeOK op s) (hnum : s.pipeline.Numbered) : s.entered.Nodup := by
  have hcalls : s.pipeline.service.sent.Pairwise fun x y => x.call ≠ y.call := List.pairwise_map.mp hnum.sent
  refine (hcalls.filter _).filterMap _ fun x y hxy m hm n hn heq => hxy ?_
  rw [← List.getElem?_inj (List.getElem?_eq_some_iff.mp hm).1 h.begun, hm, hn, heq]

/-- No call entered before one that was complete when it was posted. -/
theorem entered_order (h : IntakeOK op s) : s.entered.Pairwise fun m n => n ∉ s.doneBefore m :=
  (h.order.filter _).filterMap _ fun _ _ hxy m hm n hn => hxy m n hm hn

theorem mem_keyPosted {n : Nat} : n ∈ s.keyPosted op ↔
    n < s.server.handlers.length ∧ n ∈ s.accepted ∧
      ∃ r, s.response? n = some r ∧ Result.hook op r.result = some .keyActions := by
  simp only [keyPosted, List.mem_filter, List.mem_range, decide_eq_true_eq, Option.any_eq_true]

/-- A key result whose `storeResult` is complete has entered. -/
theorem entered_of_completed (h : IntakeOK op s) {n : Nat} (hn : n ∈ s.keyPosted op)
    (hdone : n ∈ s.server.completed) : n ∈ s.entered := by
  obtain ⟨-, hacc, r, hr, hh⟩ := mem_keyPosted.mp hn
  obtain ⟨k, hk⟩ := List.mem_iff_getElem?.mp (h.accepted n hacc)
  rcases h.passed k n r hk hacc hr hh with ⟨call, hcall, rfl, -⟩ | hsent
  · exact absurd hk ((h.processed n hdone).2 call hcall)
  · exact List.mem_filterMap.mpr ⟨_, List.mem_filter.mpr ⟨hsent, rfl⟩, hk⟩

theorem keyPosted_of_entered (h : IntakeOK op s) (ha : Result.Authentic op pkg chainID s.pipeline.service) {n : Nat}
    (hn : n ∈ s.entered) : n ∈ s.keyPosted op := by
  obtain ⟨x, hx, hk⟩ := List.mem_filterMap.mp hn
  obtain ⟨hsent, hkey⟩ := List.mem_filter.mp hx
  obtain ⟨m, hacc, hm⟩ := h.sent x hsent
  rw [hk, Option.some.injEq] at hm
  subst hm
  obtain ⟨r, hr, hreq⟩ := h.posted _ n hk
  obtain ⟨hreq', hh, -⟩ := ha.sent x hsent
  rw [hreq, Option.some.injEq] at hreq'
  rw [of_decide_eq_true hkey, ← hreq'] at hh
  exact mem_keyPosted.mpr ⟨h.lt (h.accepted n hacc), hacc, r, hr, hh⟩

/-- The results that entered are those of the calls that entered. -/
theorem keyResults_sent (h : IntakeOK op s) (ha : Result.Authentic op pkg chainID s.pipeline.service) :
    Result.Pipeline.keyResults s.pipeline.service.sent =
      s.entered.filterMap fun n => (s.response? n).map (·.result) := by
  rw [entered, List.filterMap_filterMap, Result.Pipeline.keyResults, ← List.filterMap_eq_map]
  refine List.filterMap_congr fun x hx => ?_
  obtain ⟨hsent, -⟩ := List.mem_filter.mp hx
  obtain ⟨n, -, hk⟩ := h.sent x hsent
  obtain ⟨r, hr, hreq⟩ := h.posted _ n hk
  rw [(ha.sent x hsent).1, Option.some.injEq] at hreq
  rw [hk, Option.bind_some, hr, ← hreq]
  rfl

theorem completed_of_settled (h : Runs op pkg chainID wallets cache s) (hs : s.Settled) {n : Nat}
    (hn : n ∈ s.begun) : n ∈ s.server.completed := by
  have hok := intakeOK_of_runs h
  obtain ⟨k, hk⟩ := List.mem_iff_getElem?.mp hn
  obtain ⟨r, hr, -⟩ := hok.posted k n hk
  rw [response?, Option.bind_eq_some_iff] at hr
  obtain ⟨handler, hget, hresp⟩ := hr
  have hover := hs.handlers handler (List.mem_of_getElem? hget)
  have hkept := (serverOK_of_reach h.server).handlers n handler hget
  cases handler with
  | returned =>
    rcases (hkept : Kept s.server n) with hdone | htask
    · exact hdone
    · rw [hs.tasks] at htask
      cases htask
  | refused => cases hresp
  | decoded | locked | read | spawned | storing | acking => cases hover

/-- **Key results take effect in the order of posting when each waits for the
one before.** In every run in which no key result finds `KeyActions` full,
whatever the other channels hold: a key result that is posted when
`storeResult` of another is complete enters `KeyActions` after it; and if that
is so for all key results, then after every task has run and every message has
been received they entered in the order of posting, and the wallet cache is
what applying them in that order makes of it. -/
theorem key_results_in_order (h : Runs op pkg chainID wallets cache s) :
    (∀ m n, m ∈ s.keyPosted op → n ∈ s.entered → m ∈ s.doneBefore n → s.entered.idxOf m < s.entered.idxOf n) ∧
    (s.Settled → (∀ m ∈ s.keyPosted op, ∀ n ∈ s.keyPosted op, m < n → m ∈ s.doneBefore n) →
      s.entered = s.keyPosted op ∧ s.pipeline.cache = Result.Pipeline.applied op wallets cache
        ((s.keyPosted op).filterMap fun n => (s.response? n).map (·.result))) := by
  have hok := intakeOK_of_runs h
  have ha := Result.authentic (Result.Pipeline.reach_service h.pipeline)
  have hnodup := entered_nodup hok (numbered_of_runs h)
  have hfirst : ∀ m n, m ∈ s.keyPosted op → n ∈ s.entered → m ∈ s.doneBefore n →
      s.entered.idxOf m < s.entered.idxOf n := by
    intro m n hm hn hdone
    obtain ⟨hcompleted, hlt⟩ := hok.before n m hdone
    have hmlt := List.idxOf_lt_length_iff.mpr (entered_of_completed hok hm hcompleted)
    have hnlt := List.idxOf_lt_length_iff.mpr hn
    rcases Nat.lt_trichotomy (s.entered.idxOf m) (s.entered.idxOf n) with hij | hij | hij
    · exact hij
    · have heq : m = n := by
        rw [← List.getElem_idxOf hmlt, ← List.getElem_idxOf hnlt]
        simp only [hij]
      omega
    · have hno := List.pairwise_iff_getElem.mp (entered_order hok) _ _ hnlt hmlt hij
      rw [List.getElem_idxOf, List.getElem_idxOf] at hno
      exact absurd hdone hno
  refine ⟨hfirst, fun hsettled hall => ?_⟩
  have hmem : ∀ n, n ∈ s.entered ↔ n ∈ s.keyPosted op := fun n =>
    ⟨keyPosted_of_entered hok ha, fun hn =>
      entered_of_completed hok hn (completed_of_settled h hsettled (hok.accepted n (mem_keyPosted.mp hn).2.1))⟩
  have hsorted : s.entered.Pairwise (· < ·) := by
    refine List.pairwise_iff_getElem.mpr fun i j hi hj hij => ?_
    rcases Nat.lt_trichotomy (s.entered[i]) (s.entered[j]) with hlt | heq | hlt
    · exact hlt
    · exact absurd ((hnodup.getElem_inj_iff).mp heq) (by omega)
    · have hji := hfirst _ _ ((hmem _).mp (List.getElem_mem hj)) (List.getElem_mem hi)
        (hall _ ((hmem _).mp (List.getElem_mem hj)) _ ((hmem _).mp (List.getElem_mem hi)) hlt)
      rw [hnodup.idxOf_getElem, hnodup.idxOf_getElem] at hji
      omega
  have hpostedSorted : (s.keyPosted op).Pairwise (· < ·) := List.pairwise_lt_range.filter _
  have hperm : s.entered.Perm (s.keyPosted op) :=
    (List.perm_ext_iff_of_nodup hnodup (hpostedSorted.imp Nat.ne_of_lt)).mpr hmem
  have heq : s.entered = s.keyPosted op :=
    hperm.eq_of_pairwise (fun a b _ _ hab hba => absurd hab (Nat.lt_asymm hba)) hsorted hpostedSorted
  refine ⟨heq, ?_⟩
  have hdrains := drains_of_runs h
  rw [Result.Pipeline.Drains, hsettled.received, keyResults_sent hok ha, heq] at hdrains
  exact hdrains

end Order

/-! ## Two key results and a policy update -/

def keyGenerated : ActionResponse := Result.plainResponse 1 .keyGenerate [9]

def keyDeleted : ActionResponse := Result.plainResponse 2 .keyDelete [9]

/-- Its message stays on `BackupTrigger`, which is full then. -/
def policyUpdated : ActionResponse := Result.plainResponse 3 .updatePolicy [9]

/-- The node posts a response, and `resultH` returns. -/
def post (n : Nat) (r : ActionResponse) : List IntakeEvent :=
  .server (.start (.ok r)) :: List.replicate 5 (.server (.resultH n))

/-- The task of the call runs. -/
def runTask (n : Nat) : List IntakeEvent :=
  [.process n, .pipeline (.passOn 0), .pipeline (.store 0 true true), .server (.task n)]

/-- The event loop takes two messages. -/
def receiveBoth : List IntakeEvent := [.pipeline (.receive .keyActions), .pipeline (.receive .keyActions)]

theorem key_results_in_order_inTurn :
    ∃ s, Runs .numbered .named 0 .bytes .empty s ∧ s.entered = [0, 2] ∧ ¬ s.pipeline.Room .backupTrigger ∧
      s.pipeline.cache =
        Result.Pipeline.applied .numbered .bytes .empty [keyGenerated.result, keyDeleted.result] := by
  have hrun : ((system .numbered .named 0 .bytes .empty).runIf (Passes .numbered) (start .empty)
      (.pipeline (.setIdentity 9) :: post 0 keyGenerated ++ runTask 0 ++ post 1 policyUpdated ++ runTask 1 ++
        post 2 keyDeleted ++ runTask 2 ++ receiveBoth)).any (fun s =>
          ((∀ h ∈ s.server.handlers, h.over = true) ∧ s.server.tasks = [] ∧
            (Result.Pipeline.keyResults s.pipeline.service.onChannels).isEmpty) ∧
          s.keyPosted .numbered = [0, 2] ∧ 0 ∈ s.doneBefore 2 ∧ ¬ s.pipeline.Room .backupTrigger ∧
          s.server.handlers = [.returned keyGenerated, .returned policyUpdated, .returned keyDeleted]) := by
    decide +kernel
  obtain ⟨s, hs, hend⟩ := (Option.any_eq_true _ _).mp hrun
  obtain ⟨⟨hover, htasks, hempty⟩, hposted, hdone, hfull, hhandlers⟩ := of_decide_eq_true hend
  have hreach : Runs .numbered .named 0 .bytes .empty s := .of_runIf (.init rfl) hs
  have hall : ∀ m ∈ s.keyPosted .numbered, ∀ n ∈ s.keyPosted .numbered, m < n → m ∈ s.doneBefore n := by
    intro m hm n hn hlt
    rw [hposted] at hm hn
    simp only [List.mem_cons, List.not_mem_nil, or_false] at hm hn
    obtain ⟨rfl, rfl⟩ : m = 0 ∧ n = 2 := by omega
    exact hdone
  obtain ⟨hentered, hcache⟩ := (key_results_in_order hreach).2 ⟨hover, htasks, List.isEmpty_iff.mp hempty⟩ hall
  rw [hposted] at hentered hcache
  refine ⟨s, hreach, hentered, hfull, ?_⟩
  rw [hcache]
  simp only [List.filterMap_cons, response?, hhandlers]
  rfl

/-- KEY_DELETE is posted after KEY_GENERATE was acknowledged, but its task runs
first: its message enters `KeyActions` first, and the deleted key is in the
wallet cache after everything has run. -/
theorem acknowledged_results_swap :
    ∃ s₀ s, Runs .numbered .named 0 .bytes .empty s₀ ∧ s₀.server.handlers = [.returned keyGenerated] ∧
      (system .numbered .named 0 .bytes .empty).runIf (Passes .numbered) s₀
        (post 1 keyDeleted ++ runTask 1 ++ runTask 0 ++ receiveBoth) = some s ∧
      s.server.handlers = [.returned keyGenerated, .returned keyDeleted] ∧ s.Settled ∧
      s.keyPosted .numbered = [0, 1] ∧ s.entered = [1, 0] ∧ s.pipeline.cache.Has ⟨1, 0⟩ ∧
      ¬ (Result.Pipeline.applied .numbered .bytes .empty [keyGenerated.result, keyDeleted.result]).Has ⟨1, 0⟩ := by
  have hrun : ((system .numbered .named 0 .bytes .empty).runIf (Passes .numbered) (start .empty)
      (.pipeline (.setIdentity 9) :: post 0 keyGenerated)).any (fun s₀ =>
        s₀.server.handlers = [.returned keyGenerated] ∧
        ((system .numbered .named 0 .bytes .empty).runIf (Passes .numbered) s₀
          (post 1 keyDeleted ++ runTask 1 ++ runTask 0 ++ receiveBoth)).any fun s =>
            s.server.handlers = [.returned keyGenerated, .returned keyDeleted] ∧
            ((∀ h ∈ s.server.handlers, h.over = true) ∧ s.server.tasks = [] ∧
              (Result.Pipeline.keyResults s.pipeline.service.onChannels).isEmpty) ∧
            s.keyPosted .numbered = [0, 1] ∧ s.entered = [1, 0] ∧ s.pipeline.cache.Has ⟨1, 0⟩) := by
    decide +kernel
  obtain ⟨s₀, hs₀, hend₀⟩ := (Option.any_eq_true _ _).mp hrun
  obtain ⟨hfirst, hrest⟩ := of_decide_eq_true hend₀
  obtain ⟨s, hs, hend⟩ := (Option.any_eq_true _ _).mp hrest
  obtain ⟨hboth, ⟨hover, htasks, hempty⟩, hposted, hentered, hback⟩ := of_decide_eq_true hend
  exact ⟨s₀, s, .of_runIf (.init rfl) hs₀, hfirst, hs, hboth, ⟨hover, htasks, List.isEmpty_iff.mp hempty⟩, hposted,
    hentered, hback, by decide +kernel⟩

end Intake

end TeeProxy.Server
