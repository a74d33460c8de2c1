import WzXdma.Ownership
import WzXdma.Pointers

/-!
# What the driver has been given

`Ledger` says that the tables of the kernel hold exactly what the fields of the
extension refer to: each page block and its mapping, each descriptor with its bus
address, the transfer and the copies, and that nothing was released wrongly so far.
When the fields are empty, so are the tables.

`STOP` clears entries of `buf_dma_t` whose buffers are still mapped, `START` frees old
descriptors with the wrong address, and both `START` and `ALLOC_BUFFERS` overwrite
what they find.  `keepsLedger` is what an application has to keep to in order not to
run into that.
-/

namespace WzXdma

open Lib Lib.Loop Lib.Slots

/-! ## The buffers -/

/-- The books of the buffers of a driver. -/
def Driver.OwnsBuffers (c : WzConsts) (d : Driver) : Prop :=
  BuffersOwned c.nofbufs d.kern.next d.kern.pages d.kern.mapAt d.ext.bufPage d.ext.bufDmaT

namespace Driver

variable {c : WzConsts} {d d' : Driver}

/-- An iteration of the release loop gives back what the entry has, in the right order. -/
theorem releaseBuffer_owned (h : d.OwnsBuffers c) (i : Nat) :
    ∃ blocks maps, releaseBuffer i d =
        { d with
          kern := { d.kern with pages := blocks, mapAt := maps }
          ext := { d.ext with
            bufPage := Function.update d.ext.bufPage i none
            bufDmaT := Function.update d.ext.bufDmaT i 0 } } ∧
      (releaseBuffer i d).OwnsBuffers c := by
  by_cases hzero : d.ext.bufDmaT i = 0
  · have hdma : Function.update d.ext.bufDmaT i 0 = d.ext.bufDmaT := by
      rw [← hzero, Function.update_eq_self]
    cases hp : d.ext.bufPage i with
    | none =>
        have hpage : Function.update d.ext.bufPage i none = d.ext.bufPage := by
          rw [← hp, Function.update_eq_self]
        have he : releaseBuffer i d = d := by simp [releaseBuffer, hzero, hp]
        rw [he, hdma, hpage]
        exact ⟨_, _, rfl, h⟩
    | some p =>
        obtain ⟨block, hblock⟩ := Option.isSome_iff_exists.mp (h.pages.alive i p hp)
        have hnot : block.mappedAt = none := by rw [h.block i p block hp hblock, if_pos hzero]
        have he : releaseBuffer i d =
            { d with
              kern := { d.kern with pages := Function.update d.kern.pages p none }
              ext := { d.ext with bufPage := Function.update d.ext.bufPage i none } } := by
          simp [releaseBuffer, hzero, hp, Kernel.freePages, hblock, hnot]
        rw [he, hdma]
        exact ⟨_, _, rfl, h.free hp hzero⟩
  · obtain ⟨p, hp, hm⟩ := h.dma i hzero
    obtain ⟨block, hblock⟩ := Option.isSome_iff_exists.mp (h.pages.alive i p hp)
    have he : releaseBuffer i d =
        { d with
          kern := { d.kern with
            pages := Function.update (Function.update d.kern.pages p
              (some { block with mappedAt := none })) p none
            mapAt := Function.update d.kern.mapAt (d.ext.bufDmaT i) none }
          ext := { d.ext with
            bufPage := Function.update d.ext.bufPage i none
            bufDmaT := Function.update d.ext.bufDmaT i 0 } } := by
      simp only [releaseBuffer, if_neg hzero, hp, Kernel.dmaUnmapPage, hm, Kernel.freePages, hblock,
        Option.map_some, Function.update_self]
    rw [he]
    exact ⟨_, _, rfl, (h.unmap hp hzero hblock).free hp (Function.update_self ..)⟩

/-- What the release loop leaves: nothing of the buffers, and the rest as it was. -/
structure Released (c : WzConsts) (d t : Driver) (n : Nat) : Prop where
  owned : t.OwnsBuffers c
  empty : ∀ i, i < n → t.ext.bufPage i = none
  eq : ∃ blocks maps bufPage bufDmaT, t =
    { d with
      kern := { d.kern with pages := blocks, mapAt := maps }
      ext := { d.ext with bufPage := bufPage, bufDmaT := bufDmaT } }

theorem releaseAll_owned (h : d.OwnsBuffers c) :
    Released c d (upTo releaseBuffer c.nofbufs d) c.nofbufs := by
  refine upTo_invariant (fun n t => Released c d t n)
    ⟨h, fun i hi => absurd hi (Nat.not_lt_zero i), _, _, _, _, rfl⟩ ?_
  rintro i t - ⟨hown, hempty, blocks, maps, bufPage, bufDmaT, ht⟩
  obtain ⟨blocks', maps', he, hown'⟩ := releaseBuffer_owned hown i
  refine ⟨hown', fun j hj => ?_, blocks', maps', Function.update bufPage i none,
    Function.update bufDmaT i 0, by rw [he, ht]⟩
  rw [he]
  show Function.update t.ext.bufPage i none j = none
  by_cases hji : j = i
  · rw [hji, Function.update_self]
  · rw [Function.update_of_ne hji]
    exact hempty j (by omega)

/-- The allocation loop on empty entries: at each point the entries so far are filled, and
the books are right also where it gives up. -/
structure Allocating (c : WzConsts) (d : Driver) (n : Nat) (t : Driver) : Prop where
  owned : t.OwnsBuffers c
  empty : ∀ i, n ≤ i → t.ext.bufPage i = none
  eq : ∃ next blocks maps bufPage bufDmaT, d.kern.next ≤ next ∧ t =
    { d with
      kern := { d.kern with next := next, pages := blocks, mapAt := maps }
      ext := { d.ext with bufPage := bufPage, bufDmaT := bufDmaT } }

theorem Allocating.step {env : AllocEnv} {n : Nat} {t : Driver} (hn : n < c.nofbufs)
    (h : Allocating c d n t) :
    (∀ t', allocBuffer env n t = .ok t' → Allocating c d (n + 1) t') ∧
      ∀ u rc, allocBuffer env n t = .error (u, rc) → Allocating c d (n + 1) u := by
  obtain ⟨hown, hempty, next, blocks, maps, bufPage, bufDmaT, hnext, ht⟩ := h
  have hslot := hempty n (Nat.le_refl n)
  have hrest : ∀ (x : Option Nat) i, n + 1 ≤ i → Function.update t.ext.bufPage n x i = none := by
    intro x i hi
    rw [Function.update_of_ne (by omega)]
    exact hempty i (by omega)
  have hnext' : d.kern.next ≤ t.kern.next + 1 := by
    rw [ht]
    exact Nat.le_succ_of_le hnext
  obtain ⟨-, he⟩ | ⟨pfn, -, ⟨-, he⟩ | ⟨⟨ha, hfree⟩, he⟩⟩ := allocBuffer_cases env n t
  · constructor
    · intro t' h'
      simp [he] at h'
    · intro u rc h'
      simp only [he, Except.error.injEq, Prod.mk.injEq] at h'
      obtain ⟨rfl, -⟩ := h'
      have hpage : Function.update t.ext.bufPage n none = t.ext.bufPage := by
        rw [← hslot, Function.update_eq_self]
      rw [hpage]
      exact ⟨hown, fun i hi => hempty i (by omega), next, blocks, maps, bufPage, bufDmaT, hnext, ht⟩
  · constructor
    · intro t' h'
      simp [he] at h'
    · intro u rc h'
      simp only [he, Except.error.injEq, Prod.mk.injEq] at h'
      obtain ⟨rfl, -⟩ := h'
      exact ⟨hown.alloc hn hslot pfn, hrest _, _, _, _, _, _, hnext', by rw [ht]⟩
  · constructor
    · intro t' h'
      rw [he, Except.ok.injEq] at h'
      subst h'
      refine ⟨?_, hrest _, _, _, _, _, _, hnext', by rw [ht]⟩
      have hmap := (hown.alloc hn hslot pfn).map hn (Function.update_self ..)
        (Function.update_self ..) (Function.update_self ..) ha hfree
      rw [Function.update_idem, Function.update_idem] at hmap
      exact hmap
    · intro u rc h'
      simp [he] at h'

end Driver

/-! ## The whole ledger -/

/-- The tables of the kernel hold what the extension refers to, and nothing was released
wrongly. -/
structure Books (c : WzConsts) (d : Driver) : Prop where
  buffers : d.OwnsBuffers c
  descs : DescsOwned c.nofbufs d.kern.next d.kern.coherent d.ext.desc d.ext.descDma
  transfer : FieldOwns d.kern.next d.kern.transfers d.ext.transfer
  copy : FieldOwns d.kern.next d.kern.copies d.ext.descCopy
  faults : d.kern.faults.filter Fault.isRelease = []

namespace Books

variable {c : WzConsts} {d d' : Driver}

/-- An entry outside of the array is empty. -/
theorem bufPage_none (h : Books c d) (hempty : ∀ i, i < c.nofbufs → d.ext.bufPage i = none)
    (i : Nat) : d.ext.bufPage i = none := by
  cases hp : d.ext.bufPage i with
  | none => rfl
  | some p => exact absurd (h.buffers.pages.alive i p hp) (h.buffers.pages.none_live hempty p)

theorem desc_none (h : Books c d) (hempty : ∀ i, i < c.nofbufs → d.ext.desc i = none) (i : Nat) :
    d.ext.desc i = none := by
  cases hx : d.ext.desc i with
  | none => rfl
  | some x => exact absurd (h.descs.descs.alive i x hx) (h.descs.descs.none_live hempty x)

/-- Writing into descriptors changes nothing in the books. -/
theorem of_sameObjects (h : Books c d) (hk : Kernel.SameObjects d.kern d'.kern)
    (hext : d'.ext = d.ext) : Books c d' := by
  refine ⟨?_, ?_, ?_, ?_, ?_⟩
  · rw [Driver.OwnsBuffers, hk.next, hk.pages, hk.mapAt, hext]
    exact h.buffers
  · rw [hk.next, hext]
    exact h.descs.of_bus hk.bus_eq
  · rw [hk.next, hk.transfers, hext]
    exact h.transfer
  · rw [hk.next, hk.copies, hext]
    exact h.copy
  · rw [hk.faults, h.faults]

/-- The release loop gives all buffers back. -/
theorem releaseAll (h : Books c d) :
    Books c (upTo Driver.releaseBuffer c.nofbufs d) ∧
      ∀ i, (upTo Driver.releaseBuffer c.nofbufs d).ext.bufPage i = none := by
  obtain ⟨hown, hempty, blocks, maps, bufPage, bufDmaT, he⟩ := Driver.releaseAll_owned h.buffers
  have hbooks : Books c (upTo Driver.releaseBuffer c.nofbufs d) := by
    refine ⟨hown, ?_, ?_, ?_, ?_⟩
    · rw [he]
      exact h.descs
    · rw [he]
      exact h.transfer
    · rw [he]
      exact h.copy
    · rw [he]
      exact h.faults
  exact ⟨hbooks, hbooks.bufPage_none hempty⟩

theorem releaseCopy (h : Books c d) :
    Books c d.releaseCopy ∧ d.releaseCopy.ext = { d.ext with descCopy := none } := by
  unfold Driver.releaseCopy
  cases hv : d.ext.descCopy with
  | none =>
      refine ⟨h, ?_⟩
      show d.ext = _
      rw [← hv]
  | some v =>
      have hcopy := h.copy
      rw [hv] at hcopy
      obtain ⟨arr, harr⟩ := Option.isSome_iff_exists.mp ((hcopy.live_iff v).mpr rfl)
      simp only [Kernel.vfreeCopy, harr]
      exact ⟨⟨h.buffers, h.descs, h.transfer, hcopy.free, h.faults⟩, trivial⟩

theorem of_allocating (h : Books c d) {n : Nat} {t : Driver} (ht : Driver.Allocating c d n t) :
    Books c t := by
  obtain ⟨hown, -, next, blocks, maps, bufPage, bufDmaT, hnext, he⟩ := ht
  refine ⟨hown, ?_, ?_, ?_, ?_⟩
  · rw [he]
    exact h.descs.mono hnext
  · rw [he]
    exact h.transfer.mono hnext
  · rw [he]
    exact h.copy.mono hnext
  · rw [he]
    exact h.faults

/-- The copies are allocated. -/
theorem newCopy (h : Books c d) (hnone : d.ext.descCopy = none) {junk : Nat → XdmaDesc}
    (hkern : d'.kern = { d.kern with
      next := d.kern.next + 1
      copies := Function.update d.kern.copies d.kern.next (some junk) })
    (hpage : d'.ext.bufPage = d.ext.bufPage) (hdma : d'.ext.bufDmaT = d.ext.bufDmaT)
    (hdesc : d'.ext.desc = d.ext.desc) (hdescDma : d'.ext.descDma = d.ext.descDma)
    (htransfer : d'.ext.transfer = d.ext.transfer)
    (hcopy : d'.ext.descCopy = some d.kern.next) : Books c d' := by
  have hold := h.copy
  rw [hnone] at hold
  refine ⟨?_, ?_, ?_, ?_, ?_⟩
  · rw [Driver.OwnsBuffers, hkern, hpage, hdma]
    exact h.buffers.mono (Nat.le_succ _)
  · rw [hkern, hdesc, hdescDma]
    exact h.descs.mono (Nat.le_succ _)
  · rw [hkern, htransfer]
    exact h.transfer.mono (Nat.le_succ _)
  · rw [hkern, hcopy]
    exact hold.alloc (by simp) fun x hx => Function.update_of_ne hx _ _
  · rw [hkern]
    exact h.faults

end Books

/-- The books are right, and buffers that are not ready are not there. -/
structure Ledger (c : WzConsts) (d : Driver) : Prop extends Books c d where
  empty : d.ext.bufReady = false → ∀ i, d.ext.bufPage i = none

namespace Ledger

variable {c : WzConsts} {d d' : Driver}

theorem created : Ledger c .created := by
  refine ⟨⟨⟨⟨Holds.empty, ?_⟩, ?_, ?_, ?_, ?_⟩, ⟨⟨Holds.empty, ?_⟩, ?_, ?_⟩, ⟨?_, ?_⟩, ⟨?_, ?_⟩, rfl⟩,
    fun _ _ => rfl⟩ <;> simp [Driver.created, Kernel.fresh, WzExt.zero]

/-- `ALLOC_BUFFERS` on empty entries, whichever way it ends. -/
theorem allocBuffers (h : Ledger c d) (env : AllocEnv)
    (hempty : ∀ i, i < c.nofbufs → d.ext.bufPage i = none) (hnone : d.ext.descCopy = none) :
    Ledger c (Driver.ioctlDoWzAllocBuffers c env d).1 := by
  have hstart : Driver.Allocating c d 0 d :=
    ⟨h.buffers, fun i _ => h.bufPage_none hempty i, _, _, _, _, _, Nat.le_refl _, rfl⟩
  have hloop : ∀ n t, n ≤ c.nofbufs → forUpTo (Driver.allocBuffer env) n d = .ok t →
      Driver.Allocating c d n t ∧ t.ext.descCopy = none := by
    intro n t hn ht
    have hall := forUpTo_ok (Driver.Allocating c d) hstart
      (fun i u u' hi hI hb => (hI.step (by omega)).1 u' hb) ht
    refine ⟨hall, ?_⟩
    obtain ⟨-, -, _, _, _, _, _, -, he⟩ := hall
    rw [he]
    exact hnone
  obtain ⟨t, junk, ht, he⟩ | ⟨u, t, hu, rfl, he⟩ := Driver.ioctlDoWzAllocBuffers_cases c env d
  · obtain ⟨hall, hcopy⟩ := hloop _ t (Nat.le_refl _) ht
    rw [he]
    exact ⟨(h.of_allocating hall).newCopy hcopy rfl rfl rfl rfl rfl rfl rfl,
      fun hready => by cases hready⟩
  · have hu' : Books c u := by
      cases hu with
      | buffer hi ht hu =>
          have hall := (hloop _ _ (Nat.le_of_lt hi) ht).1
          exact h.of_allocating ((hall.step hi).2 _ _ hu)
      | @copy t ht =>
          obtain ⟨hall, hcopy⟩ := hloop _ t (Nat.le_refl _) ht
          have hbooks := h.of_allocating hall
          refine ⟨hbooks.buffers, hbooks.descs, hbooks.transfer, ?_, hbooks.faults⟩
          rw [← hcopy]
          exact hbooks.copy
      | @kfifo t junk ht =>
          obtain ⟨hall, hcopy⟩ := hloop _ t (Nat.le_refl _) ht
          exact (h.of_allocating hall).newCopy hcopy rfl rfl rfl rfl rfl rfl rfl
    obtain ⟨hbooks, hpages⟩ := hu'.releaseAll
    obtain ⟨hbooks', hext⟩ := hbooks.releaseCopy
    rw [he]
    refine ⟨⟨hbooks'.buffers, hbooks'.descs, hbooks'.transfer, hbooks'.copy, hbooks'.faults⟩,
      fun _ i => ?_⟩
    show (upTo Driver.releaseBuffer c.nofbufs u).releaseCopy.ext.bufPage i = none
    rw [hext]
    exact hpages i

/-- `FREE_BUFFERS` gives all buffers and the copies back. -/
theorem freeBuffers (h : Ledger c d) :
    Ledger c (Driver.ioctlDoWzFreeBuffers c d).1 ∧
      (∀ i, (Driver.ioctlDoWzFreeBuffers c d).1.ext.bufPage i = none) ∧
      (Driver.ioctlDoWzFreeBuffers c d).1.ext.descCopy = none ∧
      (Driver.ioctlDoWzFreeBuffers c d).1.ext.desc = d.ext.desc ∧
      (Driver.ioctlDoWzFreeBuffers c d).1.ext.transfer = d.ext.transfer := by
  obtain ⟨t, ht, hpages, hdesc, htransfer, he⟩ : ∃ t, Books c t ∧ (∀ i, t.ext.bufPage i = none) ∧
      t.ext.desc = d.ext.desc ∧ t.ext.transfer = d.ext.transfer ∧
      (Driver.ioctlDoWzFreeBuffers c d).1 =
        { t with ext := { t.ext with kfifo := [], kfifoSize := 0, bufReady := false } }.releaseCopy := by
    cases hready : d.ext.bufReady with
    | false =>
        exact ⟨d, h.toBooks, h.empty hready, rfl, rfl, by simp [Driver.ioctlDoWzFreeBuffers, hready]⟩
    | true =>
        obtain ⟨hbooks, hpages⟩ := h.releaseAll
        obtain ⟨_, _, _, _, _, _, -, hall⟩ := Driver.releaseAll_buffersOnly c.nofbufs d
        refine ⟨_, hbooks, hpages, by rw [hall], by rw [hall], ?_⟩
        simp only [Driver.ioctlDoWzFreeBuffers, hready, if_true]
  have hclosed : Books c
      { t with ext := { t.ext with kfifo := [], kfifoSize := 0, bufReady := false } } :=
    ⟨ht.buffers, ht.descs, ht.transfer, ht.copy, ht.faults⟩
  obtain ⟨hbooks, hext⟩ := hclosed.releaseCopy
  rw [he, hext]
  exact ⟨⟨hbooks, fun _ i => by rw [hext]; exact hpages i⟩, hpages, rfl, hdesc, htransfer⟩

/-- `STOP` gives the transfer and the descriptors back.  The entries of `buf_dma_t` that it
clears must be clear already. -/
theorem stopFinish (h : Ledger c d) (hrun : d.engine.running = false)
    (hclear : ∀ i, d.ext.desc i ≠ none → d.ext.bufDmaT i = 0) :
    Ledger c (Driver.ioctlDoWzStopFinish c d).1 ∧
      (∀ i, i < c.nofbufs → (Driver.ioctlDoWzStopFinish c d).1.ext.desc i = none) ∧
      (Driver.ioctlDoWzStopFinish c d).1.ext.transfer = none := by
  have htransfer : Ledger c d.stopTransfer ∧ d.stopTransfer.ext = { d.ext with transfer := none } := by
    unfold Driver.stopTransfer
    cases ht : d.ext.transfer with
    | none =>
        refine ⟨h, ?_⟩
        show d.ext = _
        rw [← ht]
    | some t =>
        have hown := h.transfer
        rw [ht] at hown
        obtain ⟨tr, htr⟩ := Option.isSome_iff_exists.mp ((hown.live_iff t).mpr rfl)
        simp only [Kernel.kfreeTransfer, htr]
        exact ⟨⟨⟨h.buffers, h.descs, hown.free, h.copy, h.faults⟩, h.empty⟩, trivial⟩
  unfold Driver.ioctlDoWzStopFinish
  rw [if_neg (by simp [hrun])]
  have hloop : Ledger c (upTo Driver.stopFree c.nofbufs d.stopTransfer) ∧
      (∀ i, i < c.nofbufs → (upTo Driver.stopFree c.nofbufs d.stopTransfer).ext.desc i = none) ∧
      (upTo Driver.stopFree c.nofbufs d.stopTransfer).ext.transfer = none ∧
      ∀ i, (upTo Driver.stopFree c.nofbufs d.stopTransfer).ext.desc i ≠ none →
        (upTo Driver.stopFree c.nofbufs d.stopTransfer).ext.bufDmaT i = 0 := by
    refine upTo_invariant (fun n (t : Driver) => Ledger c t ∧ (∀ i, i < n → t.ext.desc i = none) ∧
      t.ext.transfer = none ∧ ∀ i, t.ext.desc i ≠ none → t.ext.bufDmaT i = 0) ?_ ?_
    · refine ⟨htransfer.1, fun i hi => absurd hi (Nat.not_lt_zero i), ?_, ?_⟩
      · rw [htransfer.2]
      · rw [htransfer.2]
        exact hclear
    · rintro n t - ⟨hl, hnone, htr, hzero⟩
      cases hx : t.ext.desc n with
      | none =>
          have he : Driver.stopFree n t = t := by simp [Driver.stopFree, hx]
          rw [he]
          refine ⟨hl, fun i hi => ?_, htr, hzero⟩
          by_cases hin : i = n
          · rw [hin, hx]
          · exact hnone i (by omega)
      | some x =>
          have hdma : Function.update t.ext.bufDmaT n 0 = t.ext.bufDmaT := by
            rw [← hzero n (by simp [hx]), Function.update_eq_self]
          have he : Driver.stopFree n t =
              { t with
                kern := { t.kern with coherent := Function.update t.kern.coherent x none }
                ext := { t.ext with desc := Function.update t.ext.desc n none } } := by
            simp only [Driver.stopFree, hx, hl.descs.xdmaDescFree_owned hx, hdma]
          rw [he]
          refine ⟨⟨⟨hl.buffers, hl.descs.free hx fun _ _ => rfl, hl.transfer, hl.copy, hl.faults⟩,
            hl.empty⟩, fun i hi => ?_, htr, fun i hi => ?_⟩
          · show Function.update t.ext.desc n none i = none
            by_cases hin : i = n
            · rw [hin, Function.update_self]
            · rw [Function.update_of_ne hin]
              exact hnone i (by omega)
          · by_cases hin : i = n
            · simp [hin] at hi
            · simp only [Function.update_of_ne hin] at hi
              exact hzero i hi
  exact ⟨hloop.1, hloop.2.1, hloop.2.2.1⟩

/-- `START` under way, on a ring of which the first `n` descriptors are allocated. -/
structure Starting (c : WzConsts) (n : Nat) (t : Driver) : Prop where
  ledger : Ledger c t
  desc : ∀ i, n ≤ i → t.ext.desc i = none
  transfer : t.ext.transfer = none
  ready : t.ext.bufReady = true

theorem Starting.of_sameObjects {n : Nat} {t : Driver} (h : Starting c n t) {k : Kernel}
    (hk : Kernel.SameObjects t.kern k) : Starting c n { t with kern := k } :=
  ⟨⟨h.ledger.toBooks.of_sameObjects hk rfl, h.ledger.empty⟩, h.desc, h.transfer, h.ready⟩

theorem Starting.built {n : Nat} {t : Driver} (h : Starting c n t) (hn : n < c.nofbufs)
    (mem : Kernel.CoherentMem) : Starting c (n + 1) (Driver.built t n mem) := by
  have hl := h.ledger
  have hnone := h.desc n (Nat.le_refl n)
  refine ⟨⟨⟨hl.buffers.mono (Nat.le_succ _), ?_, hl.transfer.mono (Nat.le_succ _),
    hl.copy.mono (Nat.le_succ _), hl.faults⟩, hl.empty⟩, fun i hi => ?_, h.transfer, h.ready⟩
  · exact hl.descs.alloc hn hnone _
  · simp only [Driver.built, Function.update_of_ne (show i ≠ n by omega)]
    exact h.desc i (by omega)

theorem Starting.build {env : StartEnv} {n : Nat} {t t' : Driver} (h : Starting c n t)
    (hn : n < c.nofbufs) (hb : Driver.startBuild env n t = .ok t') : Starting c (n + 1) t' := by
  have hclean : Driver.startClean n t = t := by
    simp [Driver.startClean, h.desc n (Nat.le_refl n)]
  obtain ⟨mem, -, he⟩ := Driver.startBuild_steps hb
  rw [hclean] at he
  obtain rfl | ⟨x, k, hk, rfl⟩ := he
  · exact h.built hn mem
  · exact (h.built hn mem).of_sameObjects (Kernel.modifyDesc_sameObjects hk)

theorem Starting.fill {n i : Nat} {t t' : Driver} (h : Starting c n t)
    (hf : Driver.startFill c i t = .ok t') : Starting c n t' := by
  obtain ⟨x, bus, y, rest, v, arr, -, hblock, -, harr, rfl⟩ := Driver.startFill_ok hf
  have hl := h.ledger
  refine ⟨⟨⟨hl.buffers, hl.descs.of_bus fun z => ?_, hl.transfer, hl.copy.of_live fun w => ?_,
    hl.faults⟩, hl.empty⟩, h.desc, h.transfer, h.ready⟩
  · by_cases hz : z = x
    · simp [hz, hblock]
    · simp only [Function.update_of_ne hz]
  · by_cases hw : w = v
    · simp [hw, harr]
    · simp only [Function.update_of_ne hw]

/-- Descriptors are given back when there is no memory for the transfer. -/
theorem Starting.undo {n : Nat} {t : Driver} (h : Starting c n t) (i : Nat) :
    Starting c n (Driver.startUndo i t) := by
  have hl := h.ledger
  have hdma : ∀ j, j ≠ i → Function.update t.ext.descDma i 0 j = t.ext.descDma j :=
    fun j hj => Function.update_of_ne hj _ _
  have hdesc : ∀ j, n ≤ j → Function.update t.ext.desc i none j = none := by
    intro j hj
    by_cases hji : j = i
    · rw [hji, Function.update_self]
    · rw [Function.update_of_ne hji]
      exact h.desc j hj
  cases hx : t.ext.desc i with
  | none =>
      have hsame : Function.update t.ext.desc i none = t.ext.desc := by
        rw [← hx, Function.update_eq_self]
      simp only [Driver.startUndo, hx]
      refine ⟨⟨⟨hl.buffers, ?_, hl.transfer, hl.copy, hl.faults⟩, hl.empty⟩, hdesc, h.transfer, h.ready⟩
      simp only [hsame]
      refine ⟨hl.descs.descs, hl.descs.lt, fun j x hj => ?_⟩
      have hji : j ≠ i := by
        rintro rfl
        rw [hx] at hj
        cases hj
      rw [hdma j hji]
      exact hl.descs.bus j x hj
  | some x =>
      simp only [Driver.startUndo, hx, hl.descs.xdmaDescFree_owned hx]
      exact ⟨⟨⟨hl.buffers, hl.descs.free hx hdma, hl.transfer, hl.copy, hl.faults⟩, hl.empty⟩, hdesc,
        h.transfer, h.ready⟩

/-- `START` on an engine without ring and transfer, whichever way it ends. -/
theorem start {env : StartEnv} {rc : Int} (h : Ledger c d)
    (hok : d.ext.bufReady = true →
      (∀ i, i < c.nofbufs → d.ext.desc i = none) ∧ d.ext.transfer = none)
    (hs : Driver.ioctlDoWzStart c env d = .ok (d', rc)) : Ledger c d' := by
  obtain ⟨-, rfl, -⟩ | ⟨hready, t, i, ht, hi, rfl, -⟩ | ⟨hready, t, k, t', ht, hk, hf, hend⟩ :=
    Driver.ioctlDoWzStart_ends hs
  · exact h
  all_goals
    have hreset : Starting c 0
        { d with ext := { d.ext with blockFirstDesc := 0, blockScannedDesc := 0 } } :=
      ⟨⟨⟨h.buffers, h.descs, h.transfer, h.copy, h.faults⟩, h.empty⟩,
        fun i _ => h.desc_none (hok hready).1 i, (hok hready).2, hready⟩
  · have hbuilt := forUpTo_ok (Starting c) hreset
      (fun j u u' hj hI hb => hI.build (by omega) hb) ht
    have hclean : Driver.startClean i t = t := by
      simp [Driver.startClean, hbuilt.desc i (Nat.le_refl i)]
    rw [hclean]
    exact hbuilt.ledger
  · have hbuilt := forUpTo_ok (Starting c) hreset (fun j u u' hj hI hb => hI.build hj hb) ht
    have hfilled := forUpTo_ok (fun _ => Starting c c.nofbufs)
      (hbuilt.of_sameObjects (Kernel.modifyDesc_sameObjects hk)) (fun j u u' _ hI hb => hI.fill hb) hf
    have hl := hfilled.ledger
    obtain ⟨hq, -⟩ | ⟨rfl, -⟩ := hend
    · obtain ⟨tr, e, rfl, hother, ⟨x, hx, -⟩, -⟩ := Driver.startQueue_ok hq
      have htransfer := hl.transfer
      rw [hfilled.transfer] at htransfer
      exact ⟨⟨hl.buffers.mono (Nat.le_succ _), hl.descs.mono (Nat.le_succ _),
        htransfer.alloc (by simp [hx]) hother, hl.copy.mono (Nat.le_succ _), hl.faults⟩, hl.empty⟩
    · have hdropped : Starting c c.nofbufs { t' with ext := { t'.ext with transfer := none } } := by
        refine ⟨⟨⟨hl.buffers, hl.descs, ?_, hl.copy, hl.faults⟩, hl.empty⟩, hfilled.desc, rfl,
          hfilled.ready⟩
        rw [← hfilled.transfer]
        exact hl.transfer
      exact (upTo_invariant (fun _ => Starting c c.nofbufs) hdropped
        fun j u _ hu => hu.undo j).ledger

end Ledger

/-! ## All runs -/

/-- `ALLOC_BUFFERS` finds its entries empty, `START` finds no ring and no transfer, `STOP` finds
no descriptor whose buffer is still mapped, and no measurement is made. -/
def keepsLedger (c : WzConsts) (s : Sys) : Act → Prop
  | .allocBuffers _ =>
      (∀ i, i < c.nofbufs → s.drv.ext.bufPage i = none) ∧ s.drv.ext.descCopy = none
  | .start _ => s.drv.ext.bufReady = true →
      (∀ i, i < c.nofbufs → s.drv.ext.desc i = none) ∧ s.drv.ext.transfer = none
  | .stopFinish => ∀ i, i < c.nofbufs → s.drv.ext.desc i ≠ none → s.drv.ext.bufDmaT i = 0
  | .perfStart _ _ => False
  | _ => True

namespace Ledger

variable {c : WzConsts} {d : Driver}

/-- The condition of `STOP` speaks about all entries. -/
theorem clear_of_lt (h : Ledger c d)
    (hclear : ∀ i, i < c.nofbufs → d.ext.desc i ≠ none → d.ext.bufDmaT i = 0) (i : Nat)
    (hi : d.ext.desc i ≠ none) : d.ext.bufDmaT i = 0 := by
  obtain ⟨x, hx⟩ := Option.ne_none_iff_exists'.mp hi
  obtain ⟨j, hj, hjx⟩ := h.descs.descs.covered x (h.descs.descs.alive i x hx)
  have hij : i = j := h.descs.descs.inj i j x hx hjx
  exact hclear i (hij ▸ hj) hi

theorem step {s s' : Sys} {a : Act} (h : Ledger c s.drv) (hok : keepsLedger c s a)
    (hs : Sys.step c s a = some s') : Ledger c s'.drv := by
  have heffect := Sys.step_effect hs
  generalize s'.drv = d' at heffect
  cases heffect with
  | allocBuffers env => exact h.allocBuffers env hok.1 hok.2
  | freeBuffers => exact h.freeBuffers.1
  | start hstart => exact h.start hok hstart
  | stopFinish hrun => exact (h.stopFinish hrun (h.clear_of_lt hok)).1
  | getbuf copyFails q hq =>
      exact ⟨⟨h.buffers, h.descs, h.transfer, h.copy, h.faults⟩, h.empty⟩
  | contents ha hk hrun hlist => exact ⟨h.toBooks.of_sameObjects hk rfl, h.empty⟩
  | perfStart _ => exact hok.elim
  | service hservice =>
      obtain ⟨b, e, rfl, -⟩ := Driver.service_ok hservice
      exact ⟨⟨h.buffers, h.descs, h.transfer, h.copy, h.faults⟩, h.empty⟩
  | user ha => exact h

end Ledger

/-- `wz_engine_cleanup`, from the moment when its `STOP` has seen the engine stopped. -/
def Driver.wzEngineCleanup (c : WzConsts) (d : Driver) : Driver :=
  (ioctlDoWzFreeBuffers c (ioctlDoWzStopFinish c d).1).1

/-- Everything was given back, each thing once and in the right way. -/
structure Driver.AllReleased (d : Driver) : Prop where
  pages : ∀ p, d.kern.pages p = none
  mapAt : ∀ a, d.kern.mapAt a = none
  coherent : ∀ x, d.kern.coherent x = none
  transfers : ∀ t, d.kern.transfers t = none
  copies : ∀ v, d.kern.copies v = none
  faults : d.kern.faults.filter Fault.isRelease = []

namespace Driver

variable {c : WzConsts} {d : Driver}

theorem eq_none_of_not_isSome {α : Type} {x : Option α} (h : ¬x.isSome = true) : x = none := by
  simpa using h

/-- The cleanup empties the books. -/
theorem allReleased_of_clear (h : Ledger c d) (hrun : d.engine.running = false)
    (hclear : ∀ i, i < c.nofbufs → d.ext.desc i ≠ none → d.ext.bufDmaT i = 0) :
    (d.wzEngineCleanup c).AllReleased := by
  obtain ⟨hstop, hdesc, htransfer⟩ := h.stopFinish hrun (h.clear_of_lt hclear)
  obtain ⟨hfree, hpages, hcopy, hdesc', htransfer'⟩ := hstop.freeBuffers
  constructor
  · exact fun p => eq_none_of_not_isSome (hfree.buffers.pages.none_live (fun i _ => hpages i) p)
  · intro a
    cases ha : (d.wzEngineCleanup c).kern.mapAt a with
    | none => rfl
    | some p =>
        obtain ⟨i, -, hi, hne⟩ := hfree.buffers.mapAt a p ha
        exact absurd (hi ▸ hfree.buffers.dma_zero (hpages i)) hne
  · intro x
    refine eq_none_of_not_isSome (hfree.descs.descs.none_live (fun i hi => ?_) x)
    rw [hdesc', hdesc i hi]
  · intro t
    refine eq_none_of_not_isSome fun ht => ?_
    have hfield := (hfree.transfer.live_iff t).mp ht
    rw [htransfer', htransfer] at hfield
    cases hfield
  · intro v
    refine eq_none_of_not_isSome fun hv => ?_
    have hfield := (hfree.copy.live_iff v).mp hv
    rw [hcopy] at hfield
    cases hfield
  · exact hfree.faults

/-- An iteration of the release loop unmaps the address of its entry and clears it. -/
theorem releaseBuffer_mapAt (i : Nat) (d : Driver) :
    (releaseBuffer i d).ext.bufDmaT = Function.update d.ext.bufDmaT i 0 ∧
      ∀ a, a ≠ d.ext.bufDmaT i → (releaseBuffer i d).kern.mapAt a = d.kern.mapAt a := by
  by_cases hzero : d.ext.bufDmaT i = 0
  · have hdma : Function.update d.ext.bufDmaT i 0 = d.ext.bufDmaT := by
      rw [← hzero, Function.update_eq_self]
    cases hp : d.ext.bufPage i with
    | none =>
        have he : releaseBuffer i d = d := by simp [releaseBuffer, hzero, hp]
        rw [he, hdma]
        exact ⟨rfl, fun _ _ => rfl⟩
    | some p =>
        obtain ⟨fs, hk⟩ := d.kern.freePages_eq p
        simp only [releaseBuffer, if_pos hzero, hp, hk, hdma]
        exact ⟨trivial, fun _ _ => trivial⟩
  · obtain ⟨pages, fs, hk⟩ := dmaUnmapPage_eq d.kern (d.ext.bufDmaT i)
    cases hp : d.ext.bufPage i with
    | none =>
        simp only [releaseBuffer, if_neg hzero, hp, hk]
        exact ⟨trivial, fun a ha => Function.update_of_ne ha _ _⟩
    | some p =>
        obtain ⟨fs', hk'⟩ := (d.kern.dmaUnmapPage (d.ext.bufDmaT i)).freePages_eq p
        rw [hk] at hk'
        simp only [releaseBuffer, if_neg hzero, hp, hk, hk']
        exact ⟨trivial, fun a ha => Function.update_of_ne ha _ _⟩

/-- A mapping to which no entry leads survives the release loop. -/
theorem releaseAll_mapAt {a : DmaAddr} (ha : a ≠ 0) (hno : ∀ i, d.ext.bufDmaT i ≠ a) (n : Nat) :
    (upTo releaseBuffer n d).kern.mapAt a = d.kern.mapAt a := by
  have hloop : (upTo releaseBuffer n d).kern.mapAt a = d.kern.mapAt a ∧
      ∀ i, (upTo releaseBuffer n d).ext.bufDmaT i ≠ a := by
    refine upTo_invariant (fun _ (t : Driver) => t.kern.mapAt a = d.kern.mapAt a ∧
      ∀ i, t.ext.bufDmaT i ≠ a) ⟨rfl, hno⟩ ?_
    rintro i t - ⟨hmap, hne⟩
    obtain ⟨hdma, hkeep⟩ := releaseBuffer_mapAt i t
    refine ⟨(hkeep a (hne i).symm).trans hmap, fun j => ?_⟩
    rw [hdma]
    by_cases hji : j = i
    · rw [hji, Function.update_self]
      exact ha.symm
    · rw [Function.update_of_ne hji]
      exact hne j
  exact hloop.1

theorem freeBuffers_mapAt {a : DmaAddr} (ha : a ≠ 0) (hno : ∀ i, d.ext.bufDmaT i ≠ a) :
    (ioctlDoWzFreeBuffers c d).1.kern.mapAt a = d.kern.mapAt a := by
  have hcopy : ∀ t : Driver, t.releaseCopy.kern.mapAt = t.kern.mapAt := by
    intro t
    obtain ⟨-, he⟩ | ⟨v, fs, -, he⟩ := t.releaseCopy_cases <;> rw [he]
  unfold ioctlDoWzFreeBuffers
  rw [hcopy]
  dsimp only
  split
  · exact releaseAll_mapAt ha hno c.nofbufs
  · rfl

/-- `STOP` clears the entries of its descriptors and unmaps nothing. -/
theorem stopFinish_mapAt (hrun : d.engine.running = false) :
    (ioctlDoWzStopFinish c d).1.kern.mapAt = d.kern.mapAt ∧
      ∀ i, (ioctlDoWzStopFinish c d).1.ext.bufDmaT i =
        if i < c.nofbufs ∧ d.ext.desc i ≠ none then 0 else d.ext.bufDmaT i := by
  have htransfer : d.stopTransfer.kern.mapAt = d.kern.mapAt := by
    obtain ⟨-, he⟩ | ⟨t, fs, -, he⟩ := d.stopTransfer_cases <;> rw [he]
  obtain ⟨tr, hext⟩ := d.stopTransfer_ext
  unfold ioctlDoWzStopFinish
  rw [if_neg (by simp [hrun])]
  have hloop : (upTo stopFree c.nofbufs d.stopTransfer).kern.mapAt = d.kern.mapAt ∧
      (∀ i, c.nofbufs ≤ i →
        (upTo stopFree c.nofbufs d.stopTransfer).ext.desc i = d.ext.desc i) ∧
      ∀ i, (upTo stopFree c.nofbufs d.stopTransfer).ext.bufDmaT i =
        if i < c.nofbufs ∧ d.ext.desc i ≠ none then 0 else d.ext.bufDmaT i := by
    refine upTo_invariant (fun n (t : Driver) => t.kern.mapAt = d.kern.mapAt ∧
      (∀ i, n ≤ i → t.ext.desc i = d.ext.desc i) ∧
      ∀ i, t.ext.bufDmaT i = if i < n ∧ d.ext.desc i ≠ none then 0 else d.ext.bufDmaT i) ?_ ?_
    · refine ⟨htransfer, fun i _ => by rw [hext], fun i => ?_⟩
      rw [hext]
      simp
    · rintro n t - ⟨hmap, hdesc, hdma⟩
      obtain ⟨hx, he⟩ | ⟨x, fs, hx, -, he⟩ := stopFree_cases n t
      · rw [hdesc n (Nat.le_refl n)] at hx
        rw [he]
        refine ⟨hmap, fun i hi => hdesc i (by omega), fun i => ?_⟩
        rw [hdma i]
        by_cases hin : i = n
        · simp [hin, hx]
        · have hlt : i < n ↔ i < n + 1 := by omega
          simp only [hlt]
      · rw [hdesc n (Nat.le_refl n)] at hx
        rw [he]
        refine ⟨hmap, fun i hi => ?_, fun i => ?_⟩
        · show Function.update t.ext.desc n none i = d.ext.desc i
          rw [Function.update_of_ne (by omega)]
          exact hdesc i (by omega)
        · show Function.update t.ext.bufDmaT n 0 i = _
          by_cases hin : i = n
          · simp [hin, hx]
          · have hlt : i < n ↔ i < n + 1 := by omega
            simp only [Function.update_of_ne hin, hdma i, hlt]
  exact ⟨hloop.1, hloop.2.2⟩

/-- A buffer that is mapped when `STOP` frees its descriptor stays mapped. -/
theorem not_allReleased (h : Ledger c d) (hrun : d.engine.running = false) {i : Nat}
    (hi : i < c.nofbufs) (hdesc : d.ext.desc i ≠ none) (hdma : d.ext.bufDmaT i ≠ 0) :
    ¬(d.wzEngineCleanup c).AllReleased := by
  intro hall
  obtain ⟨hmap, hcleared⟩ := stopFinish_mapAt (c := c) hrun
  obtain ⟨p, hp, hm⟩ := h.buffers.dma i hdma
  -- no other entry has the address, and this one was cleared
  have hno : ∀ j, (ioctlDoWzStopFinish c d).1.ext.bufDmaT j ≠ d.ext.bufDmaT i := by
    intro j
    rw [hcleared j]
    split
    · exact fun e => hdma e.symm
    · rename_i hj
      intro e
      obtain ⟨q, hq, hm'⟩ := h.buffers.dma j (by rw [e]; exact hdma)
      rw [e, hm, Option.some.injEq] at hm'
      subst hm'
      have hji : j = i := h.buffers.pages.inj j i p hq hp
      exact hj (hji ▸ ⟨hi, hdesc⟩)
  have hkept := freeBuffers_mapAt (c := c) hdma hno
  rw [hmap, hm] at hkept
  have := hall.mapAt (d.ext.bufDmaT i)
  rw [wzEngineCleanup, hkept] at this
  cases this

end Driver

/-- In a run that keeps the ledger, closing a stopped engine gives back everything that was
allocated, once and in the right way, exactly when no descriptor has a buffer that is
still mapped. -/
theorem cleanup_releases_all (c : WzConsts) (s : Sys)
    (hs : Machine.Reach (Sys.step c) (keepsLedger c) .created s)
    (hrun : s.drv.engine.running = false) :
    s.drv.kern.faults.filter Fault.isRelease = [] ∧
      ((s.drv.wzEngineCleanup c).AllReleased ↔
        ∀ i, i < c.nofbufs → s.drv.ext.desc i ≠ none → s.drv.ext.bufDmaT i = 0) := by
  have hledger : Ledger c s.drv := hs.invariant (P := fun s => Ledger c s.drv) .created
    fun _ _ _ _ hP hok hstep => hP.step hok hstep
  refine ⟨hledger.faults, fun hall i hi hdesc => ?_, Driver.allReleased_of_clear hledger hrun⟩
  by_contra hdma
  exact Driver.not_allReleased hledger hrun hi hdesc hdma hall

instance (c : WzConsts) (s : Sys) (a : Act) : Decidable (keepsLedger c s a) :=
  match a with
  | .allocBuffers _ =>
      inferInstanceAs (Decidable ((∀ i, i < c.nofbufs → s.drv.ext.bufPage i = none) ∧ _))
  | .start _ =>
      inferInstanceAs (Decidable (_ → (∀ i, i < c.nofbufs → s.drv.ext.desc i = none) ∧ _))
  | .stopFinish =>
      inferInstanceAs (Decidable
        (∀ i, i < c.nofbufs → s.drv.ext.desc i ≠ none → s.drv.ext.bufDmaT i = 0))
  | .perfStart _ _ => isFalse id
  | .freeBuffers | .stopRequest | .getbuf _ | .confirm _ | .perfStop _ | .service _ _
  | .writeback _ _ _ _ | .mmap _ | .fault _ _ | .munmap _ => isTrue trivial

/-- The buffers are freed while the descriptors are still there, and then the engine is
closed. -/
theorem cleanup_releases_all_after_free :
    ∃ s : Sys, Machine.Reach (Sys.step twoBuffers.toWzConsts) (keepsLedger twoBuffers.toWzConsts)
        .created s ∧
      s.drv.ext.desc 0 ≠ none ∧ (s.drv.wzEngineCleanup twoBuffers.toWzConsts).AllReleased := by
  obtain ⟨s, hs, hp⟩ := Machine.exists_reach_of_execOk (Sys.step twoBuffers.toWzConsts)
    (keepsLedger twoBuffers.toWzConsts) .created
    [.allocBuffers allocGranted, .start startGranted, .stopRequest, .service 1 0,
      .freeBuffers]
    (fun s => decide (s.drv.engine.running = false ∧ s.drv.ext.desc 0 ≠ none ∧
      ∀ i, i < twoBuffers.nofbufs → s.drv.ext.desc i ≠ none → s.drv.ext.bufDmaT i = 0))
    (by decide +kernel)
  obtain ⟨hrun, hdesc, hclear⟩ := of_decide_eq_true hp
  exact ⟨s, hs, hdesc, (cleanup_releases_all twoBuffers.toWzConsts s hs hrun).2.mpr hclear⟩

/-- After `ALLOC_BUFFERS`, `START`, `STOP` and `FREE_BUFFERS` the engine is closed: the first
buffer is still mapped, and its pages were freed in that state. -/
theorem cleanup_leaks_after_stop :
    ∃ s : Sys, s.Reachable wzConsts.toWzConsts ∧ s.drv.engine.running = false ∧
      (s.drv.wzEngineCleanup wzConsts.toWzConsts).kern.mapAt (allocGranted.maps 0) ≠ none ∧
      Fault.freedWhileMapped 0 ∈ (s.drv.wzEngineCleanup wzConsts.toWzConsts).kern.faults ∧
      ¬(s.drv.wzEngineCleanup wzConsts.toWzConsts).AllReleased := by
  obtain ⟨s, hs, hp⟩ := Machine.exists_reach_of_execOk (Sys.step wzConsts.toWzConsts)
    (fun _ _ => True) .created
    [.allocBuffers allocGranted, .start startGranted, .stopRequest, .service 1 0,
      .stopFinish, .freeBuffers]
    (fun s => decide (s.drv.engine.running = false ∧
      (s.drv.wzEngineCleanup wzConsts.toWzConsts).kern.mapAt (allocGranted.maps 0) ≠ none ∧
      Fault.freedWhileMapped 0 ∈ (s.drv.wzEngineCleanup wzConsts.toWzConsts).kern.faults))
    (by decide +kernel)
  obtain ⟨hrun, hmap, hfault⟩ := of_decide_eq_true hp
  exact ⟨s, hs, hrun, hmap, hfault, fun hall => hmap (hall.mapAt _)⟩

end WzXdma
