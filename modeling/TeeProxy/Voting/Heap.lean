/-
The boxes of a round as they lie in memory: `round.Voting.M` points to
`voteBoxes`, whose `M` points to `voteBox`es. Goroutines keep such pointers
across the locks, so two maps that look alike may not be the same object.

`Round.box?` and `Round.finalizedHash` see a round through its maps;
`Heap.box?` and `Heap.finalizedHash` do so in memory, and are the only way
the rest of the development reads the heap. A cell says for which
instruction ID and hash it was made; `Heap.OK` is that it is found there,
so there is one `voteBoxes` for an ID and one `voteBox` for a hash.
-/
import TeeProxy.Voting.Round

namespace TeeProxy.Voting

/-- A `voteBoxes` in memory, made for an instruction ID. -/
structure BoxesCell where
  id : Hash
  m : GoMap Hash Nat
  finalizedHash : Hash

/-- A `voteBox` in memory, made for an instruction ID and hash. -/
structure BoxCell where
  id : Hash
  hash : Hash
  box : VoteBox

/-- The maps and boxes as objects: the round's map has references, so has the
map of an ID. -/
structure Heap where
  voting : GoMap Hash Nat
  voteBoxes : List BoxesCell
  voteBox : List BoxCell

namespace Heap

def empty : Heap := ⟨∅, [], []⟩

/-- `boxes.M[hash]` of the object at `ref`. -/
def find (h : Heap) (ref : Nat) (hash : Hash) : Option Nat := h.voteBoxes[ref]?.bind fun c => c.m.get? hash

/-- The box that the maps lead to. -/
def box? (h : Heap) (id hash : Hash) : Option VoteBox :=
  (h.voting.get? id).bind fun ref => (h.find ref hash).bind fun b => h.voteBox[b]?.map (·.box)

/-- `boxes.FinalizedHash` of an ID, the zero hash of a new object if there is
none. -/
def finalizedHash (h : Heap) (id : Hash) : Hash :=
  (((h.voting.get? id).bind fun ref => h.voteBoxes[ref]?).map (·.finalizedHash)).getD 0

/-- The box at `b` and the finalized hash at `ref` are written. -/
def write (h : Heap) (ref b : Nat) (box : VoteBox) (finalizedHash : Hash) : Heap :=
  { h with
    voteBoxes := h.voteBoxes.modify ref fun c => { c with finalizedHash }
    voteBox := h.voteBox.modify b fun d => { d with box } }

/-- A new box is put into the maps: into the object of its ID, or with a new
one. -/
def publish (h : Heap) (ref? : Option Nat) (id hash : Hash) (box : VoteBox) (finalizedHash : Hash) : Heap :=
  let b := h.voteBox.length
  match ref? with
  | some ref => { h with
      voteBoxes := h.voteBoxes.modify ref fun c => { c with m := c.m.set hash b, finalizedHash }
      voteBox := h.voteBox ++ [⟨id, hash, box⟩] }
  | none => {
      voting := h.voting.set id h.voteBoxes.length
      voteBoxes := h.voteBoxes ++ [⟨id, (∅ : GoMap Hash Nat).set hash b, finalizedHash⟩]
      voteBox := h.voteBox ++ [⟨id, hash, box⟩] }

/-- The object at `ref` is that of the ID. -/
def IsFor (h : Heap) (ref : Nat) (id : Hash) : Prop := ∃ c, h.voteBoxes[ref]? = some c ∧ c.id = id

/-- The box at `b` is that of the ID and hash. -/
def IsBox (h : Heap) (b : Nat) (id hash : Hash) : Prop := ∃ d, h.voteBox[b]? = some d ∧ d.id = id ∧ d.hash = hash

/-- The maps and the objects agree. -/
structure OK (h : Heap) : Prop where
  voting : ∀ (id : Hash) (ref : Nat), h.voting.get? id = some ref ↔ h.IsFor ref id
  find : ∀ (ref b : Nat) (id hash : Hash), h.IsFor ref id → (h.find ref hash = some b ↔ h.IsBox b id hash)
  made : ∀ (b : Nat) (id hash : Hash), h.IsBox b id hash → ∃ ref, h.IsFor ref id

theorem OK.empty : OK empty := by
  refine ⟨fun id ref => ⟨fun hget => ?_, fun hfor => ?_⟩, fun ref b id hash hfor => ?_, fun b id hash hbox => ?_⟩
  · cases hget
  · obtain ⟨c, hc, -⟩ := hfor
    cases hc
  · obtain ⟨c, hc, -⟩ := hfor
    cases hc
  · obtain ⟨d, hd, -⟩ := hbox
    cases hd

variable {h : Heap} {ref ref' b b' : Nat} {id id' hash hash' : Hash} {box : VoteBox} {fin : Hash}

theorem IsFor.id_eq (h₁ : h.IsFor ref id) (h₂ : h.IsFor ref id') : id = id' := by
  obtain ⟨c, hc, rfl⟩ := h₁
  obtain ⟨c', hc', rfl⟩ := h₂
  rw [hc, Option.some.injEq] at hc'
  rw [hc']

/-- **One `voteBoxes` for an ID.** -/
theorem OK.ref_eq (hok : h.OK) (h₁ : h.IsFor ref id) (h₂ : h.IsFor ref' id) : ref = ref' := by
  have := (hok.voting id ref).mpr h₁
  rw [(hok.voting id ref').mpr h₂, Option.some.injEq] at this
  exact this.symm

/-- **One `voteBox` for a hash of an ID.** -/
theorem OK.box_eq (hok : h.OK) (h₁ : h.IsBox b id hash) (h₂ : h.IsBox b' id hash) : b = b' := by
  obtain ⟨ref, href⟩ := hok.made b id hash h₁
  have := (hok.find ref b id hash href).mpr h₁
  rw [(hok.find ref b' id hash href).mpr h₂, Option.some.injEq] at this
  exact this.symm

theorem OK.box?_iff (hok : h.OK) : h.box? id hash = some box ↔ ∃ b : Nat, h.voteBox[b]? = some ⟨id, hash, box⟩ := by
  simp only [Heap.box?, Option.bind_eq_some_iff, Option.map_eq_some_iff]
  constructor
  · rintro ⟨ref, href, b, hb, d, hd, rfl⟩
    have hfor := (hok.voting id ref).mp href
    obtain ⟨d', hd', rfl, rfl⟩ := (hok.find ref b id hash hfor).mp hb
    rw [hd, Option.some.injEq] at hd'
    subst hd'
    exact ⟨b, hd⟩
  · rintro ⟨b, hb⟩
    have hbox : h.IsBox b id hash := ⟨_, hb, rfl, rfl⟩
    obtain ⟨ref, href⟩ := hok.made b id hash hbox
    exact ⟨ref, (hok.voting id ref).mpr href, b, (hok.find ref b id hash href).mpr hbox, _, hb, rfl⟩

theorem OK.box?_none (hok : h.OK) : h.box? id hash = none ↔ ∀ b, ¬ h.IsBox b id hash := by
  constructor
  · rintro hnone b ⟨d, hd, rfl, rfl⟩
    have := hok.box?_iff.mpr ⟨b, hd⟩
    rw [hnone] at this
    cases this
  · intro hno
    cases hbox : h.box? id hash with
    | none => rfl
    | some box =>
      obtain ⟨b, hb⟩ := hok.box?_iff.mp hbox
      exact absurd ⟨_, hb, rfl, rfl⟩ (hno b)

theorem OK.finalizedHash_eq (hok : h.OK) {c : BoxesCell} (hc : h.voteBoxes[ref]? = some c) :
    h.finalizedHash c.id = c.finalizedHash := by
  rw [Heap.finalizedHash, (hok.voting c.id ref).mpr ⟨c, hc, rfl⟩, Option.bind_some, hc]
  rfl

theorem finalizedHash_none (hid : h.voting.get? id = none) : h.finalizedHash id = 0 := by
  rw [Heap.finalizedHash, hid]
  rfl

/-! ## A write -/

theorem isFor_write {i : Hash} {k : Nat} : (h.write ref b box fin).IsFor k i ↔ h.IsFor k i := by
  simp only [IsFor, write, List.getElem?_modify, Option.map_eq_map, Option.map_eq_some_iff]
  constructor
  · rintro ⟨c, ⟨a, ha, rfl⟩, rfl⟩
    exact ⟨a, ha, by split <;> rfl⟩
  · rintro ⟨a, ha, rfl⟩
    exact ⟨_, ⟨a, ha, rfl⟩, by split <;> rfl⟩

theorem isBox_write {i x : Hash} {k : Nat} : (h.write ref b box fin).IsBox k i x ↔ h.IsBox k i x := by
  simp only [IsBox, write, List.getElem?_modify, Option.map_eq_map, Option.map_eq_some_iff]
  constructor
  · rintro ⟨d, ⟨a, ha, rfl⟩, rfl, rfl⟩
    exact ⟨a, ha, by split <;> rfl, by split <;> rfl⟩
  · rintro ⟨a, ha, rfl, rfl⟩
    exact ⟨_, ⟨a, ha, rfl⟩, by split <;> rfl, by split <;> rfl⟩

theorem find_write {x : Hash} {k : Nat} : (h.write ref b box fin).find k x = h.find k x := by
  simp only [find, write, List.getElem?_modify]
  cases h.voteBoxes[k]? with
  | none => rfl
  | some c => simp only [Option.map_eq_map, Option.map_some, Option.bind_some]; split <;> rfl

theorem OK.write (hok : h.OK) : (h.write ref b box fin).OK where
  voting id ref := (hok.voting id ref).trans isFor_write.symm
  find ref b id hash hfor := by rw [find_write, isBox_write]; exact hok.find ref b id hash (isFor_write.mp hfor)
  made b id hash hbox := by
    obtain ⟨ref, href⟩ := hok.made b id hash (isBox_write.mp hbox)
    exact ⟨ref, isFor_write.mpr href⟩

theorem OK.box?_write (hok : h.OK) (hbox : h.IsBox b id hash) (id' hash' : Hash) :
    (h.write ref b box fin).box? id' hash' = if id' = id ∧ hash' = hash then some box else h.box? id' hash' := by
  obtain ⟨d, hd, rfl, rfl⟩ := hbox
  refine Option.ext fun x => ?_
  rw [hok.write.box?_iff]
  simp only [Heap.write, List.getElem?_modify, Option.map_eq_map]
  split
  next heq =>
    obtain ⟨rfl, rfl⟩ := heq
    constructor
    · rintro ⟨k, hk⟩
      obtain ⟨a, ha, heq⟩ := Option.map_eq_some_iff.mp hk
      have hid : a.id = d.id := by
        have := congrArg BoxCell.id heq
        split at this <;> exact this
      have hhash : a.hash = d.hash := by
        have := congrArg BoxCell.hash heq
        split at this <;> exact this
      rw [if_pos (hok.box_eq ⟨d, hd, rfl, rfl⟩ ⟨a, ha, hid, hhash⟩)] at heq
      exact congrArg some (congrArg BoxCell.box heq)
    · rintro ⟨⟩
      exact ⟨b, by rw [hd, Option.map_some, if_pos rfl]⟩
  next hne =>
    rw [hok.box?_iff]
    constructor
    · rintro ⟨k, hk⟩
      obtain ⟨a, ha, heq⟩ := Option.map_eq_some_iff.mp hk
      by_cases hkb : b = k
      · subst hkb
        rw [hd, Option.some.injEq] at ha
        subst ha
        rw [if_pos rfl] at heq
        exact absurd ⟨(congrArg BoxCell.id heq).symm, (congrArg BoxCell.hash heq).symm⟩ hne
      · rw [if_neg hkb] at heq
        exact ⟨k, heq ▸ ha⟩
    · rintro ⟨k, hk⟩
      refine ⟨k, ?_⟩
      rw [hk, Option.map_some, if_neg]
      rintro rfl
      rw [hd, Option.some.injEq] at hk
      subst hk
      exact hne ⟨rfl, rfl⟩

theorem OK.finalizedHash_write (hok : h.OK) (hfor : h.IsFor ref id) (id' : Hash) :
    (h.write ref b box fin).finalizedHash id' = if id' = id then fin else h.finalizedHash id' := by
  cases hget : h.voting.get? id' with
  | none =>
    rw [finalizedHash_none (h := h.write ref b box fin) hget, finalizedHash_none hget, if_neg]
    rintro rfl
    rw [(hok.voting id' ref).mpr hfor] at hget
    cases hget
  | some k =>
    obtain ⟨c, hc, rfl⟩ := (hok.voting id' k).mp hget
    have hc' : (h.write ref b box fin).voteBoxes[k]? =
        some (if ref = k then { c with finalizedHash := fin } else c) := by
      simp only [Heap.write, List.getElem?_modify, hc, Option.map_eq_map, Option.map_some]
    by_cases hk : ref = k
    · subst hk
      rw [if_pos rfl] at hc'
      rw [if_pos (hfor.id_eq ⟨c, hc, rfl⟩).symm]
      exact hok.write.finalizedHash_eq hc'
    · rw [if_neg hk] at hc'
      rw [if_neg, hok.write.finalizedHash_eq hc', hok.finalizedHash_eq hc]
      intro heq
      exact hk (hok.ref_eq hfor ⟨c, hc, heq⟩)

/-! ## A new box -/

/-- Where a new box goes: its ID has an object, or none. -/
def Slot (h : Heap) (id : Hash) : Option Nat → Prop
  | some ref => h.IsFor ref id
  | none => h.voting.get? id = none

/-- The object a box was published in. -/
def slotRef (h : Heap) (ref? : Option Nat) : Nat := ref?.getD h.voteBoxes.length

/-- The box of a hash there, with its object. -/
def slotFind (h : Heap) (ref? : Option Nat) (hash : Hash) : Option (Nat × Nat) :=
  ref?.bind fun ref => (h.find ref hash).map (ref, ·)

/-- The finalized hash there; a new object has none. -/
def slotFinalizedHash (h : Heap) (ref? : Option Nat) : Hash :=
  ((ref?.bind fun ref => h.voteBoxes[ref]?).map (·.finalizedHash)).getD 0

section Publish

variable {ref? ref?' : Option Nat}

theorem isFor_publish {i : Hash} {k : Nat} : (h.publish ref? id hash box fin).IsFor k i ↔
    h.IsFor k i ∨ ref? = none ∧ k = h.voteBoxes.length ∧ i = id := by
  cases ref? with
  | some ref =>
    simp only [IsFor, publish, List.getElem?_modify, Option.map_eq_map, Option.map_eq_some_iff, reduceCtorEq, false_and,
      or_false]
    constructor
    · rintro ⟨c, ⟨a, ha, rfl⟩, rfl⟩
      exact ⟨a, ha, by split <;> rfl⟩
    · rintro ⟨a, ha, rfl⟩
      exact ⟨_, ⟨a, ha, rfl⟩, by split <;> rfl⟩
  | none =>
    simp only [IsFor, publish, List.getElem?_append, true_and]
    split
    next hlt =>
      have hne : k ≠ h.voteBoxes.length := by omega
      simp [hne]
    next hge =>
      rw [List.getElem?_eq_none (l := h.voteBoxes) (by omega)]
      by_cases hk : k = h.voteBoxes.length
      · subst hk
        simp [eq_comm]
      · have hnone : ([⟨id, (∅ : GoMap Hash Nat).set hash h.voteBox.length, fin⟩] : List BoxesCell)[
            k - h.voteBoxes.length]? = none := List.getElem?_eq_none (by simp; omega)
        simp [hnone, hk]

theorem isBox_publish {i x : Hash} {k : Nat} : (h.publish ref? id hash box fin).IsBox k i x ↔
    h.IsBox k i x ∨ k = h.voteBox.length ∧ i = id ∧ x = hash := by
  have hcell : (h.publish ref? id hash box fin).voteBox = h.voteBox ++ [⟨id, hash, box⟩] := by
    cases ref? <;> rfl
  simp only [IsBox, hcell, List.getElem?_append]
  split
  next hlt =>
    have hne : k ≠ h.voteBox.length := by omega
    simp [hne]
  next hge =>
    rw [List.getElem?_eq_none (l := h.voteBox) (by omega)]
    by_cases hk : k = h.voteBox.length
    · subst hk
      simp [eq_comm]
    · have hnone : ([⟨id, hash, box⟩] : List BoxCell)[k - h.voteBox.length]? = none :=
        List.getElem?_eq_none (by simp; omega)
      simp [hnone, hk]

theorem IsFor.lt (hfor : h.IsFor ref id) : ref < h.voteBoxes.length := by
  obtain ⟨c, hc, -⟩ := hfor
  exact (List.getElem?_eq_some_iff.mp hc).1

theorem IsBox.lt (hbox : h.IsBox b id hash) : b < h.voteBox.length := by
  obtain ⟨d, hd, -⟩ := hbox
  exact (List.getElem?_eq_some_iff.mp hd).1

/-- The maps of a published heap: the new box under its hash, the rest as it
was. -/
theorem find_publish (hslot : h.Slot id ref?) {k : Nat} {x : Hash} :
    (h.publish ref? id hash box fin).find k x =
      if k = h.slotRef ref? then (if x = hash then some h.voteBox.length else h.find k x) else h.find k x := by
  cases ref? with
  | some ref =>
    obtain ⟨c, hc, -⟩ := hslot
    simp only [find, publish, List.getElem?_modify, slotRef, Option.getD_some]
    by_cases hk : k = ref
    · subst hk
      simp [hc, GoMap.get?_set]
    · simp [hk, Ne.symm hk]
  | none =>
    have hnew : h.slotRef none = h.voteBoxes.length := rfl
    rw [hnew]
    simp only [find, publish, List.getElem?_append]
    by_cases hk : k = h.voteBoxes.length
    · subst hk
      simp [GoMap.get?_set]
    · rw [if_neg hk]
      split
      · rfl
      next hge =>
        have hnone : ([⟨id, (∅ : GoMap Hash Nat).set hash h.voteBox.length, fin⟩] : List BoxesCell)[
            k - h.voteBoxes.length]? = none := List.getElem?_eq_none (by simp; omega)
        rw [hnone, List.getElem?_eq_none (l := h.voteBoxes) (by omega)]

theorem voting_publish (hok : h.OK) (hslot : h.Slot id ref?) (i : Hash) :
    (h.publish ref? id hash box fin).voting.get? i = if i = id then some (h.slotRef ref?) else h.voting.get? i := by
  cases ref? with
  | some ref =>
    change h.voting.get? i = if i = id then some ref else h.voting.get? i
    split
    next heq => rw [heq]; exact (hok.voting id ref).mpr hslot
    next => rfl
  | none => exact GoMap.get?_set _ _ _ _

theorem isFor_publish_slot (hslot : h.Slot id ref?) :
    (h.publish ref? id hash box fin).IsFor (h.slotRef ref?) id := by
  rw [isFor_publish]
  cases ref? with
  | some ref => exact .inl hslot
  | none => exact .inr ⟨rfl, rfl, rfl⟩

theorem OK.not_isFor (hok : h.OK) (hid : h.voting.get? id = none) : ¬ h.IsFor ref id := by
  intro hfor
  rw [(hok.voting id ref).mpr hfor] at hid
  cases hid

theorem OK.not_isBox (hok : h.OK) (hid : h.voting.get? id = none) : ¬ h.IsBox b id hash := by
  intro hbox
  obtain ⟨ref, href⟩ := hok.made b id hash hbox
  exact hok.not_isFor hid href

theorem OK.slot_eq (hok : h.OK) (h₁ : h.Slot id ref?) (h₂ : h.Slot id ref?') : ref? = ref?' := by
  cases ref? with
  | some ref =>
    cases ref?' with
    | some ref' => rw [hok.ref_eq h₁ h₂]
    | none => exact absurd h₁ (hok.not_isFor h₂)
  | none =>
    cases ref?' with
    | some ref' => exact absurd h₂ (hok.not_isFor h₁)
    | none => rfl

theorem OK.slotFind_some (hok : h.OK) (hslot : h.Slot id ref?) (hfind : h.slotFind ref? hash = some (ref, b)) :
    h.IsFor ref id ∧ h.IsBox b id hash := by
  simp only [slotFind, Option.bind_eq_some_iff, Option.map_eq_some_iff, Prod.mk.injEq] at hfind
  obtain ⟨_, rfl, _, hfind, rfl, rfl⟩ := hfind
  exact ⟨hslot, (hok.find _ _ id hash hslot).mp hfind⟩

theorem OK.slotFind_none (hok : h.OK) (hslot : h.Slot id ref?) (hfind : h.slotFind ref? hash = none) :
    h.box? id hash = none := by
  refine hok.box?_none.mpr fun b hbox => ?_
  cases ref? with
  | some ref =>
    have hfound := (hok.find ref b id hash hslot).mpr hbox
    simp [slotFind, hfound] at hfind
  | none => exact hok.not_isBox hslot hbox

theorem OK.slotFinalizedHash_eq (hok : h.OK) (hslot : h.Slot id ref?) :
    h.slotFinalizedHash ref? = h.finalizedHash id := by
  cases ref? with
  | some ref =>
    obtain ⟨c, hc, rfl⟩ := hslot
    rw [hok.finalizedHash_eq hc, slotFinalizedHash, Option.bind_some, hc]
    rfl
  | none =>
    rw [finalizedHash_none hslot]
    rfl

theorem find_new (h : Heap) (x : Hash) : h.find h.voteBoxes.length x = none := by
  rw [find, List.getElem?_eq_none (Nat.le_refl _)]
  rfl

theorem OK.isFor_iff (hok : h.OK) (hslot : h.Slot id ref?) {k : Nat} {i : Hash} :
    (h.publish ref? id hash box fin).IsFor k i ↔ if i = id then k = h.slotRef ref? else h.IsFor k i := by
  rw [isFor_publish]
  cases ref? with
  | some ref =>
    simp only [reduceCtorEq, false_and, or_false]
    split
    next heq =>
      subst heq
      exact ⟨fun hk => hok.ref_eq hk hslot, fun hk => hk ▸ hslot⟩
    next => rfl
  | none =>
    split
    next heq =>
      subst heq
      exact ⟨fun hk => hk.elim (fun hk => absurd hk (hok.not_isFor hslot)) fun hk => hk.2.1,
        fun hk => .inr ⟨rfl, hk, rfl⟩⟩
    next hne => simp [hne]

theorem OK.publish (hok : h.OK) (hslot : h.Slot id ref?) (hno : h.box? id hash = none) :
    (h.publish ref? id hash box fin).OK := by
  have hnone := hok.box?_none.mp hno
  refine ⟨fun i k => ?_, fun k b i x hk => ?_, fun b i x hb => ?_⟩
  · rw [voting_publish hok hslot, hok.isFor_iff hslot]
    split
    · rw [Option.some.injEq, eq_comm]
    · exact hok.voting i k
  · rw [hok.isFor_iff hslot] at hk
    rw [find_publish hslot, isBox_publish]
    by_cases hi : i = id
    · subst hi
      rw [if_pos rfl] at hk
      rw [if_pos hk]
      by_cases hx : x = hash
      · subst hx
        simp only [if_true, Option.some.injEq, and_true, hnone b, false_or, eq_comm]
      · simp only [hx, if_false, and_false, or_false]
        subst hk
        cases ref? with
        | some ref => exact hok.find ref b i x hslot
        | none =>
          refine ⟨fun hb => ?_, fun hb => absurd hb (hok.not_isBox hslot)⟩
          rw [show h.slotRef none = h.voteBoxes.length from rfl, find_new] at hb
          cases hb
    · rw [if_neg hi] at hk
      have hne : k ≠ h.slotRef ref? := by
        rintro rfl
        cases ref? with
        | some ref => exact hi (hk.id_eq hslot)
        | none => exact Nat.lt_irrefl _ hk.lt
      simp only [if_neg hne, hi, false_and, and_false, or_false]
      exact hok.find k b i x hk
  · rcases isBox_publish.mp hb with hold | ⟨-, rfl, -⟩
    · obtain ⟨ref, href⟩ := hok.made b i x hold
      exact ⟨ref, isFor_publish.mpr (.inl href)⟩
    · exact ⟨_, isFor_publish_slot hslot⟩

theorem OK.box?_publish (hok : h.OK) (hslot : h.Slot id ref?) (hno : h.box? id hash = none) (id' hash' : Hash) :
    (h.publish ref? id hash box fin).box? id' hash' =
      if id' = id ∧ hash' = hash then some box else h.box? id' hash' := by
  have hcell : (h.publish ref? id hash box fin).voteBox = h.voteBox ++ [⟨id, hash, box⟩] := by
    cases ref? <;> rfl
  refine Option.ext fun x => ?_
  rw [(hok.publish hslot hno).box?_iff, hcell]
  split
  next heq =>
    obtain ⟨rfl, rfl⟩ := heq
    constructor
    · rintro ⟨k, hk⟩
      rw [List.getElem?_append] at hk
      split at hk
      · exact absurd ⟨_, hk, rfl, rfl⟩ (hok.box?_none.mp hno k)
      · exact congrArg some (congrArg BoxCell.box (List.mem_singleton.mp (List.mem_of_getElem? hk))).symm
    · rintro ⟨⟩
      exact ⟨h.voteBox.length, List.getElem?_concat_length⟩
  next hne =>
    rw [hok.box?_iff]
    constructor
    · rintro ⟨k, hk⟩
      rw [List.getElem?_append] at hk
      split at hk
      · exact ⟨k, hk⟩
      · have heq := List.mem_singleton.mp (List.mem_of_getElem? hk)
        exact absurd ⟨congrArg BoxCell.id heq, congrArg BoxCell.hash heq⟩ hne
    · rintro ⟨k, hk⟩
      exact ⟨k, by rw [List.getElem?_append_left (List.getElem?_eq_some_iff.mp hk).1, hk]⟩

theorem cell_publish (hslot : h.Slot id ref?) :
    ∃ c, (h.publish ref? id hash box fin).voteBoxes[h.slotRef ref?]? = some c ∧ c.id = id ∧ c.finalizedHash = fin := by
  cases ref? with
  | some ref =>
    obtain ⟨c, hc, hid⟩ := hslot
    refine ⟨{ c with m := c.m.set hash h.voteBox.length, finalizedHash := fin }, ?_, hid, rfl⟩
    simp only [publish, slotRef, Option.getD_some, List.getElem?_modify, hc]
    simp
  | none => exact ⟨_, List.getElem?_concat_length, rfl, rfl⟩

theorem cell_publish_ne {k : Nat} {c : BoxesCell} (hc : h.voteBoxes[k]? = some c) (hk : k ≠ h.slotRef ref?) :
    (h.publish ref? id hash box fin).voteBoxes[k]? = some c := by
  cases ref? with
  | some ref =>
    have hne : ref ≠ k := Ne.symm hk
    simp only [publish, List.getElem?_modify, hc]
    simp [hne]
  | none =>
    change (h.voteBoxes ++ _)[k]? = some c
    rw [List.getElem?_append_left (List.getElem?_eq_some_iff.mp hc).1, hc]

theorem OK.finalizedHash_publish (hok : h.OK) (hslot : h.Slot id ref?) (hno : h.box? id hash = none) (id' : Hash) :
    (h.publish ref? id hash box fin).finalizedHash id' = if id' = id then fin else h.finalizedHash id' := by
  have hok' : (h.publish ref? id hash box fin).OK := hok.publish hslot hno
  split
  next heq =>
    subst heq
    obtain ⟨c, hc, rfl, hfin⟩ : ∃ c, (h.publish ref? id' hash box fin).voteBoxes[h.slotRef ref?]? = some c ∧ _ :=
      cell_publish hslot
    rw [hok'.finalizedHash_eq hc, hfin]
  next hne =>
    cases hget : h.voting.get? id' with
    | none =>
      have hget' : (h.publish ref? id hash box fin).voting.get? id' = none := by
        rw [voting_publish hok hslot, if_neg hne, hget]
      rw [finalizedHash_none hget', finalizedHash_none hget]
    | some k =>
      obtain ⟨c, hc, rfl⟩ := (hok.voting id' k).mp hget
      have hk : k ≠ h.slotRef ref? := by
        rintro rfl
        cases ref? with
        | some ref => exact hne (IsFor.id_eq ⟨c, hc, rfl⟩ hslot)
        | none => exact Nat.lt_irrefl _ (List.getElem?_eq_some_iff.mp hc).1
      rw [hok'.finalizedHash_eq (cell_publish_ne hc hk), hok.finalizedHash_eq hc]

end Publish

end Heap

/-! ## What the maps show of an ID -/

/-- The boxes of an ID, and its finalized hash. -/
@[ext] structure View where
  box? : Hash → Option VoteBox
  finalizedHash : Hash

def View.put (v : View) (hash : Hash) (box : VoteBox) (finalizedHash : Hash) : View :=
  ⟨fun x => if x = hash then some box else v.box? x, finalizedHash⟩

/-- One box and the finalized hash of its ID are written, in terms of the two
lookups. -/
theorem View.of_lookups {box? box?' : Hash → Hash → Option VoteBox} {fin fin' : Hash → Hash} {id hash : Hash}
    {box : VoteBox} {f : Hash}
    (hbox : ∀ id' hash', box?' id' hash' = if id' = id ∧ hash' = hash then some box else box? id' hash')
    (hfin : ∀ id', fin' id' = if id' = id then f else fin id') (id' : Hash) :
    (⟨box?' id', fin' id'⟩ : View) =
      if id' = id then (⟨box? id, fin id⟩ : View).put hash box f else ⟨box? id', fin id'⟩ := by
  by_cases hid : id' = id
  · subst hid
    rw [if_pos rfl]
    refine View.ext (funext fun x => ?_) ?_
    · simp [hbox, View.put]
    · simp [hfin, View.put]
  · rw [if_neg hid]
    refine View.ext (funext fun x => ?_) ?_
    · simp [hbox, hid]
    · simp [hfin, hid]

/-- What a round has on an ID. -/
def Round.view (r : Round) (id : Hash) : View := ⟨r.box? id, r.finalizedHash id⟩

namespace Heap

variable {h : Heap} {ref b : Nat} {ref? : Option Nat} {id hash : Hash} {box : VoteBox} {fin : Hash}

/-- What the heap has on an ID. -/
def view (h : Heap) (id : Hash) : View := ⟨h.box? id, h.finalizedHash id⟩

theorem OK.view_write (hok : h.OK) (hfor : h.IsFor ref id) (hbox : h.IsBox b id hash) (id' : Hash) :
    (h.write ref b box fin).view id' = if id' = id then (h.view id).put hash box fin else h.view id' :=
  View.of_lookups (hok.box?_write hbox) (hok.finalizedHash_write hfor) id'

theorem OK.view_publish (hok : h.OK) (hslot : h.Slot id ref?) (hno : h.box? id hash = none) (id' : Hash) :
    (h.publish ref? id hash box fin).view id' = if id' = id then (h.view id).put hash box fin else h.view id' :=
  View.of_lookups (hok.box?_publish hslot hno) (hok.finalizedHash_publish hslot hno) id'

end Heap

end TeeProxy.Voting
