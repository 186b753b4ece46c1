/-
`storage.Storage` (`pkg/storage/storage.go`), as far as backups use it: values
under keys in some backend, without expiry. What a successful write stores is
what is read back, and nothing else of the storage changes. The Redis storage
is one.
-/
import TeeProxy.RedisStorage

namespace TeeProxy

/-- `storage.Storage[T]` on a backend with states `σ`. Every call takes
whether the backend serves it; one that fails has no effect. `notFound` is
`ErrNotFound`. -/
structure Storage (ε σ T : Type) where
  notFound : ε
  setWithTTL : Bool → String → T → σ → Except ε σ
  get : Bool → String → σ → Except ε T
  get_set : ∀ {ok key item st st'}, setWithTTL ok key item st = .ok st' → get true key st' = .ok item
  get_other : ∀ {ok key item st st'}, setWithTTL ok key item st = .ok st' →
    ∀ {key'}, key' ≠ key → ∀ ok', get ok' key' st' = get ok' key' st
  get_failed : ∀ key st, ∃ e, get false key st = .error e ∧ e ≠ notFound

/-- What is written through `s` is not seen through `t`. -/
def Storage.Unseen {ε σ T U : Type} (s : Storage ε σ T) (t : Storage ε σ U) : Prop :=
  ∀ {ok key item st st'}, s.setWithTTL ok key item st = .ok st' → ∀ ok' key', t.get ok' key' st' = t.get ok' key' st

/-- The text up to the first separator, and what follows it, are determined. -/
theorem append_cons_injective {α : Type} {c : α} {a a' s s' : List α} (ha : c ∉ a) (ha' : c ∉ a')
    (h : a ++ c :: s = a' ++ c :: s') : a = a' ∧ s = s' := by
  induction a generalizing a' with
  | nil =>
    cases a' with
    | nil => simpa using h
    | cons x' a' =>
      simp only [List.nil_append, List.cons_append, List.cons.injEq] at h
      exact absurd (List.mem_cons.mpr (.inl h.1)) ha'
  | cons x a ih =>
    cases a' with
    | nil =>
      simp only [List.nil_append, List.cons_append, List.cons.injEq] at h
      exact absurd (List.mem_cons.mpr (.inl h.1.symm)) ha
    | cons x' a' =>
      simp only [List.cons_append, List.cons.injEq] at h
      obtain ⟨hrest, htail⟩ := ih (fun hc => ha (List.mem_cons_of_mem _ hc))
        (fun hc => ha' (List.mem_cons_of_mem _ hc)) h.2
      exact ⟨by rw [h.1, hrest], htail⟩

namespace RedisStorage

variable {T U γ : Type}

theorem prefixed_injective (s : RedisStorage T) : Function.Injective s.prefixed :=
  fun _ _ h => (String.append_right_inj _).mp h

theorem prefixed_eq {s : RedisStorage T} {t : RedisStorage U} {key key' : String}
    (hs : '-' ∉ s.keyPrefix.toList) (ht : '-' ∉ t.keyPrefix.toList) (h : s.prefixed key = t.prefixed key') :
    s.keyPrefix = t.keyPrefix ∧ key = key' := by
  have hl : s.keyPrefix.toList ++ '-' :: key.toList = t.keyPrefix.toList ++ '-' :: key'.toList := by
    have := congrArg String.toList h
    simpa [RedisStorage.prefixed] using this
  obtain ⟨hprefixed, hkey⟩ := append_cons_injective hs ht hl
  exact ⟨String.toList_inj.mp hprefixed, String.toList_inj.mp hkey⟩

theorem get_congr (s : RedisStorage T) {r r' : Redis γ} {key : String}
    (h : r'.values.get? (s.prefixed key) = r.values.get? (s.prefixed key)) (ok : Bool) :
    s.get ok key r' = s.get ok key r := by
  unfold get Redis.get
  rw [h]

/-- Redis storage as a storage. -/
def storage (s : RedisStorage T) : Storage StorageErr (Redis γ) T where
  notFound := .notFound
  setWithTTL := s.setWithTTL
  get := s.get
  get_set h := by
    obtain ⟨data, hdata, rfl⟩ := setWithTTL_ok h
    exact get_stored (GoMap.get?_set_self _ _ _) (s.codec.unmarshal_marshal _ _ hdata)
  get_other h key' hne ok' := by
    obtain ⟨data, -, rfl⟩ := setWithTTL_ok h
    exact s.get_congr (GoMap.get?_set_ne _ (s.prefixed_injective.ne hne) _) ok'
  get_failed key st := ⟨.getting (s.prefixed key), rfl, nofun⟩

/-- Storages with prefixes that never make the same Redis key. -/
theorem storage_unseen {s : RedisStorage T} {t : RedisStorage U}
    (hne : ∀ key key', t.prefixed key' ≠ s.prefixed key) :
    @Storage.Unseen StorageErr (Redis γ) T U s.storage t.storage := by
  intro ok key item st st' h ok' key'
  obtain ⟨data, -, rfl⟩ := setWithTTL_ok h
  exact t.get_congr (GoMap.get?_set_ne _ (hne key key') _) ok'

end RedisStorage

end TeeProxy
