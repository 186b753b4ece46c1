/-
Where the calls on a bucket do not overlap, the bucket is a map with an expiry
per entry, kept lazily: it has the map's entries but for some that have
expired, and every `Get` answers as the map does.
-/
import TeeProxy.Gcs.Calls

namespace TeeProxy.Gcs

variable {T : Type}

/-! ## Calls that do not overlap -/

/-- The event begins a call. -/
def Event.begins : Event T → Bool
  | .set _ _ | .setWithTTL _ _ _ | .remove _ | .get _ => true
  | _ => false

/-- A TTL is positive. -/
def Event.Timed : Event T → Prop
  | .setWithTTL _ _ ttl => 0 < ttl
  | _ => True

instance (e : Event T) : Decidable e.Timed := by
  cases e <;> unfold Event.Timed <;> infer_instance

/-- No call begins while another is under way, and every TTL is positive. -/
def Apart (s : State T) (e : Event T) : Prop := (e.begins = true → s.calls.length = 0) ∧ e.Timed

instance (s : State T) (e : Event T) : Decidable (Apart s e) := inferInstanceAs (Decidable (_ ∧ _))

section Sequential

variable {g : GCSStorage T} {s s' : State T} {e : Event T}

/-- The entries the bucket's objects stand for. -/
def view (g : GCSStorage T) (b : Bucket) (key : String) : Option (Expiry.Entry T Int) :=
  (b.objects.get? (g.object key)).bind fun o => g.entry o.raw

theorem view_upload {b : Bucket} {key : String} {raw : List UInt8} {entry : Expiry.Entry T Int}
    (h : g.entry raw = some entry) :
    view g (b.upload (g.object key) raw) = Function.update (view g b) key (some entry) := by
  funext key'
  simp only [view, Bucket.upload, GoMap.get?_set, g.object_injective.eq_iff, Function.update_apply]
  split
  · exact h
  · rfl

theorem view_delete {b : Bucket} {key : String} :
    view g (b.delete (g.object key)) = Function.update (view g b) key none := by
  funext key'
  simp only [view, Bucket.delete, GoMap.get?_delete, g.object_injective.eq_iff, Function.update_apply]
  split
  · rfl
  · rfl

/-- Where calls do not overlap, what the only call has is current: a write's
envelope stands for its entry, and what a `Get` has read is still stored. -/
def Call.Current (g : GCSStorage T) (b : Bucket) : Call T → Prop
  | .writing _ entry raw => g.entry raw = some entry
  | .judging key raw _ => ∃ entry, g.entry raw = some entry ∧ view g b key = some entry
  | _ => True

/-- The bucket holds the map, but for some entries that have expired, and
every answer was the map's. -/
structure Mirrors (g : GCSStorage T) (s : State T) : Prop where
  lazy : Expiry.Lazy (s.clock : Int) s.map (view g s.bucket)
  readable : ∀ key o, s.stored g key = some o → ∃ entry, g.entry o.raw = some entry
  single : s.calls.length ≤ 1
  current : ∀ c ∈ s.calls, c.Current g s.bucket
  answered : ∀ a ∈ s.answers, a.got = a.expected

theorem Call.Current.keep {c : Call T} {b b' : Bucket} (h : c.Current g b)
    (hc : ∀ key raw generation, c ≠ .judging key raw generation) : c.Current g b' := by
  cases c with
  | writing key entry raw => exact h
  | removing key => trivial
  | judging key raw generation => exact absurd rfl (hc key raw generation)
  | deleting key generation => trivial

theorem Event.begins_of_write? {key entry doc} {now : Nat} (he : e.write? g now = some (key, entry, doc)) :
    e.begins = true := by
  cases e with
  | set key item => rfl
  | setWithTTL key item ttl => rfl
  | _ => cases he

/-- Through the envelope a write's entry is read back, its missing expiry
through the zero time. -/
theorem Event.entry_of_write? {key entry raw} {now : Nat} (he : e.write? g now = some (key, entry, .ok raw))
    (ht : e.Timed) : g.entry raw = some entry := by
  cases e with
  | set key item =>
    simp only [Event.write?, Option.some.injEq, Prod.mk.injEq] at he
    obtain ⟨rfl, rfl, hw⟩ := he
    exact GCSStorage.entry_set hw
  | setWithTTL key item ttl =>
    simp only [Event.write?, Option.some.injEq, Prod.mk.injEq] at he
    obtain ⟨rfl, rfl, hw⟩ := he
    exact GCSStorage.entry_setWithTTL (Int.natCast_nonneg now) ht hw
  | _ => cases he

namespace Mirrors

theorem begin (h : Mirrors g s) {c : Call T} (hnone : s.calls.length = 0) (hc : c.Current g s.bucket) :
    Mirrors g (s.begin c) := by
  have hcalls : (s.begin c).calls = [c] := by
    rw [State.begin, List.eq_nil_of_length_eq_zero hnone, List.nil_append]
  refine ⟨h.lazy, h.readable, ?_, ?_, h.answered⟩
  · exact (congrArg List.length hcalls).le
  · intro d hd
    rw [hcalls] at hd
    cases List.mem_singleton.mp hd
    exact hc

theorem finish (h : Mirrors g s) (n : Nat) : Mirrors g (s.finish n) :=
  ⟨h.lazy, h.readable, (List.length_eraseIdx_le _ _).trans h.single,
    fun c hc => h.current c (List.mem_of_mem_eraseIdx hc), h.answered⟩

theorem answer (h : Mirrors g s) {key : String} {got : Except GcsErr T} (hgot : got = s.expected key) :
    Mirrors g (s.answer key got) := by
  refine ⟨h.lazy, h.readable, h.single, h.current, fun a ha => ?_⟩
  rcases List.mem_append.mp ha with ha | ha
  · exact h.answered a ha
  · cases List.mem_singleton.mp ha
    exact hgot

/-- A request of the only call, which has not read the bucket. -/
theorem request (h : Mirrors g s) {n : Nat} {c : Call T} (hn : s.calls[n]? = some c)
    (hc : ∀ key raw generation, c ≠ .judging key raw generation) {b : Bucket}
    {m : String → Option (Expiry.Entry T Int)} (hlazy : Expiry.Lazy (s.clock : Int) m (view g b))
    (hreadable : ∀ name o, b.objects.get? name = some o →
      s.bucket.objects.get? name = some o ∨ ∃ entry, g.entry o.raw = some entry) :
    Mirrors g { s with bucket := b, map := m } := by
  refine ⟨hlazy, fun key o ho => ?_, h.single, fun d hd => ?_, h.answered⟩
  · exact (hreadable _ o ho).elim (h.readable key o) id
  · have hdc : d = c := by
      obtain ⟨x, hx⟩ : ∃ x, s.calls = [x] := List.length_eq_one_iff.mp
        (le_antisymm h.single (List.length_pos_of_mem hd))
      have hmem := List.mem_of_getElem? hn
      rw [hx] at hd hmem
      rw [List.mem_singleton.mp hd, List.mem_singleton.mp hmem]
    exact (h.current d hd).keep (hdc ▸ hc)

theorem expected_eq (h : Mirrors g s) (key : String) :
    s.expected key = orNotFound (Expiry.get (view g s.bucket) (s.clock : Int) key) := by
  rw [State.expected, h.lazy.get_eq]

theorem expected_absent (h : Mirrors g s) {key : String} (hs : s.stored g key = none) :
    s.expected key = .error .notFound := by
  have hv : view g s.bucket key = none := by
    rw [State.stored] at hs
    rw [view, hs, Option.bind_none]
  rw [h.expected_eq, Expiry.get, hv, Option.bind_none, orNotFound]

/-- What a `Get` makes of the object it read is what the map has. -/
theorem expected_judging (h : Mirrors g s) {n : Nat} {key : String} {raw : List UInt8} {generation : Nat}
    (hn : s.calls[n]? = some (.judging key raw generation)) :
    ∃ got, g.check key raw s.clock = .ok got ∧ s.expected key = orNotFound got := by
  obtain ⟨entry, hentry, hv⟩ := h.current _ (List.mem_of_getElem? hn)
  refine ⟨_, GCSStorage.check_entry hentry, ?_⟩
  rw [h.expected_eq, Expiry.get, hv, Option.bind_some]

/-- **One step.** -/
theorem step (h : Mirrors g s) (hf : Fenced g s) (hok : Apart s e) (hst : Step g s e s') : Mirrors g s' := by
  cases hst with
  | tick d => exact ⟨h.lazy.later (by push_cast; omega), h.readable, h.single, h.current, h.answered⟩
  | refused he => exact h
  | begun he => exact h.begin (hok.1 (Event.begins_of_write? he)) (Event.entry_of_write? he hok.2)
  | removing key => exact h.begin (hok.1 rfl) trivial
  | absent hs => exact h.answer (h.expected_absent hs).symm
  | @reading key o hs =>
    obtain ⟨entry, hentry⟩ := h.readable key o hs
    refine h.begin (hok.1 rfl) ⟨entry, hentry, ?_⟩
    rw [State.stored] at hs
    rw [view, hs, Option.bind_some, hentry]
  | @uploaded n key entry raw hn =>
    have hentry : g.entry raw = some entry := h.current _ (List.mem_of_getElem? hn)
    refine h.request hn (fun _ _ _ h => by cases h) (view_upload hentry ▸ h.lazy.update key _) ?_
    intro name o ho
    simp only [Bucket.upload, GoMap.get?_set] at ho
    split at ho
    · cases ho; exact .inr ⟨entry, hentry⟩
    · exact .inl ho
  | @deleted n key hn =>
    exact h.request hn (fun _ _ _ h => by cases h) (view_delete ▸ h.lazy.update key _)
      fun _ _ ho => .inl (Bucket.get?_of_delete ho)
  | failed hn hc =>
    obtain ⟨got, hgot, -⟩ := h.expected_judging hn
    cases hc.symm.trans hgot
  | @expired n key raw generation hn hc =>
    obtain ⟨got, hgot, hexp⟩ := h.expected_judging hn
    cases hc.symm.trans hgot
    have hset : Mirrors g { s with calls := s.calls.set n (.deleting key generation) } := by
      refine ⟨h.lazy, h.readable, (List.length_set ..).trans_le h.single, fun c hcm => ?_, h.answered⟩
      rcases List.mem_or_eq_of_mem_set hcm with hcm | rfl
      · exact h.current c hcm
      · trivial
    exact hset.answer hexp.symm
  | found hn hc =>
    obtain ⟨got, hgot, hexp⟩ := h.expected_judging hn
    cases hc.symm.trans hgot
    exact (h.finish _).answer hexp.symm
  | @cleaned n key generation hn =>
    rcases s.bucket.deleteGeneration_cases (g.object key) generation with heq | ⟨o, ho, hgen, heq⟩
    · rw [heq]; exact h
    · -- The deleted write has expired, so the map has no live entry for it.
      have hexp := (hf.calls _ (List.mem_of_getElem? hn)).2 o ho hgen
      rw [heq]
      refine h.request hn (fun _ _ _ h => by cases h) (view_delete ▸ h.lazy.expire fun entry hv => ?_)
        fun _ _ ho => .inl (Bucket.get?_of_delete ho)
      rw [view, ho, Option.bind_some] at hv
      exact hexp.not_live hv
  | finished n => exact h.finish n

theorem of_reach (h : Lts.Reach (system g) Apart s) : Mirrors g s := by
  refine h.invariant (Mirrors g) ?_ ?_
  · rintro s ⟨clock, rfl⟩
    exact ⟨.refl _, fun _ _ ho => (nomatch ho), Nat.zero_le _, fun _ hc => (nomatch hc), fun _ ha => (nomatch ha)⟩
  · intro s e s' hr hs hok hstep
    exact hs.step (fenced_of_reach hr) hok (step_inv hstep)

end Mirrors

end Sequential

/-- **Lazy expiry spares live values.** In every interleaving, between any two
states of a run an object that has not expired at the end is still stored, or
some step between them took it: the delete of a `Remove` of its key, or the
upload of a write of its key, whose object, of a later generation, took its
place. In every run whose calls do not overlap and whose TTLs are positive,
each `Get` has answered as a map with an expiry per entry does. -/
theorem live_value_kept (g : GCSStorage T) :
    (∀ s s' key o, Lts.Reach (system g) Lts.Free s → Lts.Later (system g) Lts.Free s s' →
      s.stored g key = some o → ¬ g.Expired o.raw s'.clock →
      s'.stored g key = some o ∨ ∃ t e t', Lts.Later (system g) Lts.Free s t ∧ t.stored g key = some o ∧
        (system g).step t e = some t' ∧ Takes g key o t e t' ∧ Lts.Later (system g) Lts.Free t' s') ∧
    (∀ s, Lts.Reach (system g) Apart s → ∀ a ∈ s.answers, a.got = a.expected) :=
  ⟨fun _ _ _ _ hr hl ho hlive => stored_later hr hl ho hlive, fun _ hr => (Mirrors.of_reach hr).answered⟩

/-- Two values and the envelopes of one that expires at `15` and one that
does not. -/
def lettered : GCSStorage Char := ⟨"letters", .ofTable ['a', 'b'], .ofTable [⟨[0], 15⟩, ⟨[1], 0⟩]⟩

/-- A value that expires is read when it has, and is replaced before the `Get`
deletes it; then the `Get` does. -/
theorem live_value_kept_replaced :
    ∃ s s' o, Lts.Reach (system lettered) Lts.Free s ∧ (system lettered).step s (.clean 0) = some s' ∧
      s.stored lettered "k" = some o ∧ s'.stored lettered "k" = some o ∧
      ∃ t, Lts.Reach (system lettered) Apart t ∧ t.answers.map (·.got) = [.ok 'a', .error .notFound, .ok 'b'] ∧
        ∀ a ∈ t.answers, a.got = a.expected := by
  have hrun : ((system lettered).run (.start 10)
      [.setWithTTL "k" 'a' 5, .upload 0, .finish 0, .tick 10, .get "k", .judge 0, .set "k" 'b',
        .upload 1]).isSome := rfl
  have hseq : ((system lettered).runIf Apart (.start 10)
      [.setWithTTL "k" 'a' 5, .upload 0, .finish 0, .tick 5, .get "k", .judge 0, .tick 1, .get "k", .judge 0, .clean 0,
        .finish 0, .set "k" 'b', .upload 0, .finish 0, .tick 100, .get "k", .judge 0]).isSome := rfl
  have hreach : Lts.Reach (system lettered) Lts.Free (Option.get _ hrun) :=
    .of_run (.init ⟨10, rfl⟩) (fun _ _ _ => trivial) (Option.some_get hrun).symm
  have hapart : Lts.Reach (system lettered) Apart (Option.get _ hseq) :=
    .of_runIf (.init ⟨10, rfl⟩) (Option.some_get hseq).symm
  have hclean : ((system lettered).step (Option.get _ hrun) (.clean 0)).isSome := rfl
  have hlive : ¬ lettered.Expired [1] 20 := by
    rintro ⟨doc, hdoc, hz, -⟩
    cases hdoc
    exact hz rfl
  refine ⟨_, _, ⟨[1], 1⟩, hreach, (Option.some_get hclean).symm, rfl, ?_, _, hapart, rfl,
    (live_value_kept lettered).2 _ hapart⟩
  rcases (live_value_kept lettered).1 _ _ "k" ⟨[1], 1⟩ hreach
    (.step .refl trivial (Option.some_get hclean).symm) rfl hlive with hkept | htaken
  · exact hkept
  · rfl

end TeeProxy.Gcs
