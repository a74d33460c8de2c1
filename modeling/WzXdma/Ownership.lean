import WzXdma.Kernel
import WzXdma.Lib.Slots

/-!
# Books of what the kernel handed out

Each kind of object has its books: the table of the kernel holds exactly what the
fields of the extension refer to.  The page blocks and their mappings are in two
parallel arrays, the descriptors in an array next to that of their bus addresses,
the transfer and the copies each in a field of their own.

The lemmas are the moves: an empty entry takes a new object, an entry gives its
object back.
-/

namespace WzXdma

open Lib.Slots

/-! ## The books of the buffers -/

/-- The page blocks that are handed out are those in `buf_page`, and their mappings those
in `buf_dma_t`. -/
structure BuffersOwned (n next : Nat) (blocks : Nat → Option PageBlock)
    (maps : DmaAddr → Option Nat) (bufPage : Nat → Option Nat) (bufDmaT : Nat → DmaAddr) :
    Prop where
  pages : Owns n bufPage fun p => (blocks p).isSome = true
  lt : ∀ p, (blocks p).isSome = true → p < next
  block : ∀ i p block, bufPage i = some p → blocks p = some block →
    block.mappedAt = if bufDmaT i = 0 then none else some (bufDmaT i)
  dma : ∀ i, bufDmaT i ≠ 0 → ∃ p, bufPage i = some p ∧ maps (bufDmaT i) = some p
  mapAt : ∀ a p, maps a = some p → ∃ i, i < n ∧ bufDmaT i = a ∧ a ≠ 0

namespace BuffersOwned

variable {n next : Nat} {blocks : Nat → Option PageBlock} {maps : DmaAddr → Option Nat}
  {bufPage : Nat → Option Nat} {bufDmaT : Nat → DmaAddr}

theorem dma_zero (h : BuffersOwned n next blocks maps bufPage bufDmaT) {i : Nat}
    (hi : bufPage i = none) : bufDmaT i = 0 := by
  by_contra hne
  obtain ⟨p, hp, -⟩ := h.dma i hne
  rw [hi] at hp
  cases hp

/-- The new page block is not one of those there are. -/
theorem fresh (h : BuffersOwned n next blocks maps bufPage bufDmaT) : blocks next = none := by
  cases hb : blocks next with
  | none => rfl
  | some block => exact absurd (h.lt next (by rw [hb]; rfl)) (Nat.lt_irrefl _)

theorem mono {next' : Nat} (h : BuffersOwned n next blocks maps bufPage bufDmaT)
    (hle : next ≤ next') : BuffersOwned n next' blocks maps bufPage bufDmaT :=
  ⟨h.pages, fun p hp => Nat.lt_of_lt_of_le (h.lt p hp) hle, h.block, h.dma, h.mapAt⟩

/-- A page block is allocated for an empty entry. -/
theorem alloc (h : BuffersOwned n next blocks maps bufPage bufDmaT) {i : Nat} (hi : i < n)
    (hempty : bufPage i = none) (pfn : Nat) :
    BuffersOwned n (next + 1) (Function.update blocks next (some ⟨pfn, none⟩)) maps
      (Function.update bufPage i (some next)) (Function.update bufDmaT i 0) := by
  have hzero := h.dma_zero hempty
  have hdma : Function.update bufDmaT i 0 = bufDmaT := by rw [← hzero, Function.update_eq_self]
  have hfresh := h.fresh
  rw [hdma]
  constructor
  · refine h.pages.fill hi hempty (by simp [hfresh]) fun p => ?_
    by_cases hp : p = next
    · simp [hp]
    · simp [hp]
  · intro p hp
    by_cases hpn : p = next
    · rw [hpn]
      exact Nat.lt_succ_self _
    · rw [Function.update_of_ne hpn] at hp
      exact Nat.lt_succ_of_lt (h.lt p hp)
  · intro j p block hj hb
    by_cases hji : j = i
    · subst hji
      rw [Function.update_self, Option.some.injEq] at hj
      subst hj
      rw [Function.update_self, Option.some.injEq] at hb
      rw [← hb, if_pos hzero]
    · rw [Function.update_of_ne hji] at hj
      have hpn : p ≠ next := Nat.ne_of_lt (h.lt p (h.pages.alive j p hj))
      rw [Function.update_of_ne hpn] at hb
      exact h.block j p block hj hb
  · intro j hj
    have hji : j ≠ i := fun e => hj (e ▸ hzero)
    rw [Function.update_of_ne hji]
    exact h.dma j hj
  · exact h.mapAt

/-- The block of an entry without address is mapped. -/
theorem map (h : BuffersOwned n next blocks maps bufPage bufDmaT) {i p : Nat} (hi : i < n)
    (hp : bufPage i = some p) (hzero : bufDmaT i = 0) {block : PageBlock}
    (hblock : blocks p = some block) {a : DmaAddr} (ha : a ≠ 0) (hfree : maps a = none) :
    BuffersOwned n next (Function.update blocks p (some { block with mappedAt := some a }))
      (Function.update maps a (some p)) bufPage (Function.update bufDmaT i a) := by
  have hlive : ∀ q, (Function.update blocks p (some { block with mappedAt := some a }) q).isSome =
      (blocks q).isSome := by
    intro q
    by_cases hq : q = p
    · simp [hq, hblock]
    · rw [Function.update_of_ne hq]
  constructor
  · refine h.pages.mono fun q => ?_
    rw [hlive]
  · intro q hq
    rw [hlive] at hq
    exact h.lt q hq
  · intro j q b hj hb
    by_cases hji : j = i
    · subst hji
      obtain rfl := Option.some.inj (hp.symm.trans hj)
      rw [Function.update_self, Option.some.injEq] at hb
      rw [← hb, Function.update_self, if_neg ha]
    · have hqp : q ≠ p := fun e => hji (h.pages.inj j i p (e ▸ hj) hp)
      rw [Function.update_of_ne hqp] at hb
      rw [Function.update_of_ne hji]
      exact h.block j q b hj hb
  · intro j hj
    by_cases hji : j = i
    · subst hji
      exact ⟨p, hp, by rw [Function.update_self, Function.update_self]⟩
    · rw [Function.update_of_ne hji] at hj ⊢
      obtain ⟨q, hq, hm⟩ := h.dma j hj
      refine ⟨q, hq, ?_⟩
      have hne : bufDmaT j ≠ a := by
        rintro rfl
        rw [hfree] at hm
        cases hm
      rw [Function.update_of_ne hne, hm]
  · intro b q hb
    by_cases hba : b = a
    · exact ⟨i, hi, by rw [Function.update_self, hba], hba ▸ ha⟩
    · rw [Function.update_of_ne hba] at hb
      obtain ⟨j, hj, rfl, hne⟩ := h.mapAt b q hb
      have hji : j ≠ i := fun e => hne (e ▸ hzero)
      exact ⟨j, hj, Function.update_of_ne hji _ _, hne⟩

/-- The mapping of an entry is given back. -/
theorem unmap (h : BuffersOwned n next blocks maps bufPage bufDmaT) {i p : Nat}
    (hp : bufPage i = some p) (hne : bufDmaT i ≠ 0) {block : PageBlock}
    (hblock : blocks p = some block) :
    BuffersOwned n next (Function.update blocks p (some { block with mappedAt := none }))
      (Function.update maps (bufDmaT i) none) bufPage (Function.update bufDmaT i 0) := by
  have hlive : ∀ q, (Function.update blocks p (some { block with mappedAt := none }) q).isSome =
      (blocks q).isSome := by
    intro q
    by_cases hq : q = p
    · simp [hq, hblock]
    · rw [Function.update_of_ne hq]
  -- no other entry has the same address
  have hother : ∀ j, j ≠ i → bufDmaT j ≠ 0 → bufDmaT j ≠ bufDmaT i := by
    intro j hji hj0 e
    obtain ⟨q, hq, hm⟩ := h.dma j hj0
    obtain ⟨q', hq', hm'⟩ := h.dma i hne
    rw [e, hm', Option.some.injEq] at hm
    subst hm
    exact hji (h.pages.inj j i q' hq hq')
  constructor
  · refine h.pages.mono fun q => ?_
    rw [hlive]
  · intro q hq
    rw [hlive] at hq
    exact h.lt q hq
  · intro j q b hj hb
    by_cases hji : j = i
    · subst hji
      obtain rfl := Option.some.inj (hp.symm.trans hj)
      rw [Function.update_self, Option.some.injEq] at hb
      rw [← hb, Function.update_self, if_pos rfl]
    · have hqp : q ≠ p := fun e => hji (h.pages.inj j i p (e ▸ hj) hp)
      rw [Function.update_of_ne hqp] at hb
      rw [Function.update_of_ne hji]
      exact h.block j q b hj hb
  · intro j hj
    by_cases hji : j = i
    · rw [hji, Function.update_self] at hj
      exact absurd rfl hj
    · rw [Function.update_of_ne hji] at hj ⊢
      obtain ⟨q, hq, hm⟩ := h.dma j hj
      exact ⟨q, hq, by rw [Function.update_of_ne (hother j hji hj), hm]⟩
  · intro b q hb
    by_cases hba : b = bufDmaT i
    · rw [hba, Function.update_self] at hb
      cases hb
    · rw [Function.update_of_ne hba] at hb
      obtain ⟨j, hj, rfl, hne'⟩ := h.mapAt b q hb
      have hji : j ≠ i := fun e => hba (by rw [e])
      exact ⟨j, hj, Function.update_of_ne hji _ _, hne'⟩

/-- The block of an entry without address is given back. -/
theorem free (h : BuffersOwned n next blocks maps bufPage bufDmaT) {i p : Nat}
    (hp : bufPage i = some p) (hzero : bufDmaT i = 0) :
    BuffersOwned n next (Function.update blocks p none) maps (Function.update bufPage i none)
      bufDmaT := by
  constructor
  · refine h.pages.clear i fun q => ?_
    by_cases hq : q = p
    · simp [hq, hp]
    · simp [Function.update_of_ne hq, hp, Ne.symm hq]
  · intro q hq
    by_cases hqp : q = p
    · simp [hqp] at hq
    · rw [Function.update_of_ne hqp] at hq
      exact h.lt q hq
  · intro j q b hj hb
    by_cases hji : j = i
    · simp [hji] at hj
    · rw [Function.update_of_ne hji] at hj
      have hqp : q ≠ p := fun e => hji (h.pages.inj j i p (e ▸ hj) hp)
      rw [Function.update_of_ne hqp] at hb
      exact h.block j q b hj hb
  · intro j hj
    have hji : j ≠ i := fun e => hj (e ▸ hzero)
    rw [Function.update_of_ne hji]
    exact h.dma j hj
  · exact h.mapAt

end BuffersOwned

/-! ## The books of the descriptors -/

/-- The descriptors that are handed out are those in `desc`, at the bus addresses in
`desc_dma`. -/
structure DescsOwned (n next : Nat) (blocks : Nat → Option DescBlock) (desc : Nat → Option Nat)
    (descDma : Nat → DmaAddr) : Prop where
  descs : Owns n desc fun x => (blocks x).isSome = true
  lt : ∀ x, (blocks x).isSome = true → x < next
  bus : ∀ i x, desc i = some x → (blocks x).map DescBlock.bus = some (descDma i)

namespace DescsOwned

variable {n next : Nat} {blocks blocks' : Nat → Option DescBlock} {desc : Nat → Option Nat}
  {descDma : Nat → DmaAddr}

theorem mono {next' : Nat} (h : DescsOwned n next blocks desc descDma) (hle : next ≤ next') :
    DescsOwned n next' blocks desc descDma :=
  ⟨h.descs, fun x hx => Nat.lt_of_lt_of_le (h.lt x hx) hle, h.bus⟩

/-- The contents of the descriptors do not matter. -/
theorem of_bus (h : DescsOwned n next blocks desc descDma)
    (hbus : ∀ x, (blocks' x).map DescBlock.bus = (blocks x).map DescBlock.bus) :
    DescsOwned n next blocks' desc descDma := by
  have hlive : ∀ x, (blocks' x).isSome = (blocks x).isSome := by
    intro x
    have := congrArg Option.isSome (hbus x)
    simpa using this
  refine ⟨h.descs.mono fun x => by rw [hlive], fun x hx => h.lt x (by rwa [hlive] at hx), ?_⟩
  intro i x hx
  rw [hbus]
  exact h.bus i x hx

/-- A descriptor is allocated for an empty entry. -/
theorem alloc (h : DescsOwned n next blocks desc descDma) {i : Nat} (hi : i < n)
    (hempty : desc i = none) (block : DescBlock) :
    DescsOwned n (next + 1) (Function.update blocks next (some block))
      (Function.update desc i (some next)) (Function.update descDma i block.bus) := by
  have hnew : ¬(blocks next).isSome = true := fun hb => Nat.lt_irrefl _ (h.lt next hb)
  constructor
  · refine h.descs.fill hi hempty hnew fun x => ?_
    by_cases hx : x = next
    · simp [hx]
    · simp [hx]
  · intro x hx
    by_cases hxn : x = next
    · rw [hxn]
      exact Nat.lt_succ_self _
    · rw [Function.update_of_ne hxn] at hx
      exact Nat.lt_succ_of_lt (h.lt x hx)
  · intro j x hj
    by_cases hji : j = i
    · subst hji
      rw [Function.update_self, Option.some.injEq] at hj
      rw [← hj, Function.update_self, Function.update_self, Option.map_some]
    · rw [Function.update_of_ne hji] at hj ⊢
      have hxn : x ≠ next := Nat.ne_of_lt (h.lt x (h.descs.alive j x hj))
      rw [Function.update_of_ne hxn]
      exact h.bus j x hj

/-- A descriptor is given back. -/
theorem free (h : DescsOwned n next blocks desc descDma) {i x : Nat} (hx : desc i = some x)
    {descDma' : Nat → DmaAddr} (hdma : ∀ j, j ≠ i → descDma' j = descDma j) :
    DescsOwned n next (Function.update blocks x none) (Function.update desc i none) descDma' := by
  constructor
  · refine h.descs.clear i fun y => ?_
    by_cases hy : y = x
    · simp [hy, hx]
    · simp [Function.update_of_ne hy, hx, Ne.symm hy]
  · intro y hy
    by_cases hyx : y = x
    · simp [hyx] at hy
    · rw [Function.update_of_ne hyx] at hy
      exact h.lt y hy
  · intro j y hj
    by_cases hji : j = i
    · simp [hji] at hj
    · rw [Function.update_of_ne hji] at hj
      have hyx : y ≠ x := fun e => hji (h.descs.inj j i x (e ▸ hj) hx)
      rw [Function.update_of_ne hyx, hdma j hji]
      exact h.bus j y hj

/-- Releasing an entry with its address is right. -/
theorem xdmaDescFree_owned {k : Kernel} (h : DescsOwned n next k.coherent desc descDma) {i x : Nat}
    (hx : desc i = some x) :
    k.xdmaDescFree x (descDma i) = { k with coherent := Function.update k.coherent x none } := by
  obtain ⟨block, hblock, hbus⟩ := Option.map_eq_some_iff.mp (h.bus i x hx)
  simp [Kernel.xdmaDescFree, hblock, hbus]

end DescsOwned

/-! ## The books of the transfer and of the copies -/

/-- A field refers to the only object of its kind. -/
structure FieldOwns {α : Type} (next : Nat) (table : Nat → Option α) (field : Option Nat) : Prop where
  live_iff : ∀ x, (table x).isSome = true ↔ field = some x
  lt : ∀ x, field = some x → x < next

namespace FieldOwns

variable {α : Type} {next : Nat} {table : Nat → Option α} {field : Option Nat}

theorem mono {next' : Nat} (h : FieldOwns next table field) (hle : next ≤ next') :
    FieldOwns next' table field :=
  ⟨h.live_iff, fun x hx => Nat.lt_of_lt_of_le (h.lt x hx) hle⟩

theorem of_live {β : Type} {table' : Nat → Option β} (h : FieldOwns next table field)
    (hlive : ∀ x, (table' x).isSome = (table x).isSome) : FieldOwns next table' field :=
  ⟨fun x => by rw [hlive]; exact h.live_iff x, h.lt⟩

theorem alloc {table' : Nat → Option α} (h : FieldOwns next table none)
    (hnew : (table' next).isSome = true) (hother : ∀ x, x ≠ next → table' x = table x) :
    FieldOwns (next + 1) table' (some next) := by
  refine ⟨fun x => ?_, fun x hx => ?_⟩
  · by_cases hx : x = next
    · simp [hx, hnew]
    · rw [hother x hx, h.live_iff x]
      simp [Ne.symm hx]
  · rw [← Option.some.inj hx]
    exact Nat.lt_succ_self _

theorem free {x : Nat} (h : FieldOwns next table (some x)) :
    FieldOwns next (Function.update table x none) none := by
  refine ⟨fun y => ?_, fun y hy => by cases hy⟩
  by_cases hy : y = x
  · simp [hy]
  · rw [Function.update_of_ne hy, h.live_iff y]
    simp [Ne.symm hy]

end FieldOwns

end WzXdma
