import WzXdma.StartRing
import Mathlib.Data.List.Nodup

/-!
# What a failed `ALLOC_BUFFERS` gives back

There is one release loop for all the failures.  It goes over all the entries and decides from
each of them what to give back, so what it does depends on what the failure left in the
entries.  `Obtained` says that: some buffers are mapped, at most one more has its pages only,
and the entries behind them are clear.
-/

namespace WzXdma

open Lib Lib.Loop

/-- The allocators do not hand out what is in use: identifiers from `next` on are free. -/
structure Kernel.Unused (k : Kernel) : Prop where
  pages : ∀ x, k.next ≤ x → k.pages x = none
  coherent : ∀ x, k.next ≤ x → k.coherent x = none
  copies : ∀ x, k.next ≤ x → k.copies x = none

/-- A call that gives something of a buffer back. -/
inductive Release
  | unmapPage (addr : DmaAddr)
  | freePages (page : Nat)
  deriving DecidableEq, Repr

def Kernel.release (k : Kernel) : Release → Kernel
  | .unmapPage addr => k.dmaUnmapPage addr
  | .freePages page => k.freePages page

namespace Driver

variable {c : WzConsts} {d t u : Driver}

/-! ## The calls of the release loop -/

/-- The calls for entry `i`. -/
def releaseCalls (ext : WzExt) (i : Nat) : List Release :=
  (if ext.bufDmaT i = 0 then [] else [.unmapPage (ext.bufDmaT i)]) ++
    (ext.bufPage i).toList.map .freePages

/-- The calls of the first `n` iterations, in their order. -/
def releaseTrace : Nat → Driver → List Release
  | 0, _ => []
  | n + 1, d => releaseTrace n d ++ releaseCalls (upTo releaseBuffer n d).ext n

/-- An iteration makes its calls and clears its entry. -/
theorem releaseBuffer_eq (i : Nat) (d : Driver) :
    releaseBuffer i d =
      { d with
        kern := (releaseCalls d.ext i).foldl Kernel.release d.kern
        ext := { d.ext with
          bufPage := Function.update d.ext.bufPage i none
          bufDmaT := Function.update d.ext.bufDmaT i 0 } } := by
  have hpage : d.ext.bufPage i = none → Function.update d.ext.bufPage i none = d.ext.bufPage :=
    fun hp => by rw [← hp, Function.update_eq_self]
  have hdma : d.ext.bufDmaT i = 0 → Function.update d.ext.bufDmaT i 0 = d.ext.bufDmaT :=
    fun h0 => by rw [← h0, Function.update_eq_self]
  by_cases h0 : d.ext.bufDmaT i = 0
  · cases hp : d.ext.bufPage i with
    | none =>
        simp only [releaseBuffer, releaseCalls, if_pos h0, hp, hpage hp, hdma h0]
        rfl
    | some p =>
        simp only [releaseBuffer, releaseCalls, if_pos h0, hp, hdma h0]
        rfl
  · cases hp : d.ext.bufPage i with
    | none =>
        simp only [releaseBuffer, releaseCalls, if_neg h0, hp, hpage hp]
        rfl
    | some p =>
        simp only [releaseBuffer, releaseCalls, if_neg h0, hp]
        rfl

/-- What the loop does to the tables is what its calls do. -/
theorem releaseTrace_kern (n : Nat) (d : Driver) :
    (upTo releaseBuffer n d).kern = (releaseTrace n d).foldl Kernel.release d.kern := by
  induction n with
  | zero => rfl
  | succ n ih =>
      rw [upTo, releaseBuffer_eq, releaseTrace, List.foldl_append, ← ih]

/-- An iteration reads its own entry only, which the ones before it left alone. -/
theorem releaseCalls_upTo {n i : Nat} (hi : n ≤ i) (d : Driver) :
    releaseCalls (upTo releaseBuffer n d).ext i = releaseCalls d.ext i := by
  induction n with
  | zero => rfl
  | succ n ih =>
      rw [← ih (by omega), upTo, releaseBuffer_eq]
      simp only [releaseCalls, Function.update_of_ne (show i ≠ n by omega)]

theorem releaseTrace_eq (n : Nat) (d : Driver) :
    releaseTrace n d = (List.range n).flatMap (releaseCalls d.ext) := by
  induction n with
  | zero => rfl
  | succ n ih =>
      rw [releaseTrace, ih, releaseCalls_upTo (Nat.le_refl n), List.range_succ, List.flatMap_append]
      simp

/-! ## What was obtained -/

/-- Of the entries from `lo` on, those below `m` have a mapping and those below `n` have
pages, which this call was given.  The other entries are clear, and what else there is in the
tables is as in `d`. -/
structure Obtained (c : WzConsts) (d : Driver) (lo m n : Nat) (t : Driver) : Prop where
  le : m ≤ n
  page : ∀ i, lo ≤ i → i < n → t.ext.bufPage i = some (d.kern.next + i)
  noPage : ∀ i, i < c.nofbufs → (i < lo ∨ n ≤ i) → t.ext.bufPage i = none
  noMap : ∀ i, i < c.nofbufs → (i < lo ∨ m ≤ i) → t.ext.bufDmaT i = 0
  block : ∀ i, lo ≤ i → i < n → ∃ pfn, t.kern.pages (d.kern.next + i) =
    some ⟨pfn, if i < m then some (t.ext.bufDmaT i) else none⟩
  mapped : ∀ i, lo ≤ i → i < m → t.ext.bufDmaT i ≠ 0 ∧
    t.kern.mapAt (t.ext.bufDmaT i) = some (d.kern.next + i) ∧ d.kern.mapAt (t.ext.bufDmaT i) = none
  pages : ∀ p, (∀ i, lo ≤ i → i < n → p ≠ d.kern.next + i) → t.kern.pages p = d.kern.pages p
  mapAt : ∀ a, (∀ i, lo ≤ i → i < m → a ≠ t.ext.bufDmaT i) → t.kern.mapAt a = d.kern.mapAt a
  faults : t.kern.faults = d.kern.faults

namespace Obtained

variable {lo m n : Nat}

theorem zero (hpage : ∀ i, i < c.nofbufs → d.ext.bufPage i = none)
    (hdma : ∀ i, i < c.nofbufs → d.ext.bufDmaT i = 0) : Obtained c d 0 0 0 d where
  le := Nat.le_refl 0
  page := fun i _ hi => absurd hi (Nat.not_lt_zero i)
  noPage := fun i hi _ => hpage i hi
  noMap := fun i hi _ => hdma i hi
  block := fun i _ hi => absurd hi (Nat.not_lt_zero i)
  mapped := fun i _ hi => absurd hi (Nat.not_lt_zero i)
  pages := fun _ _ => rfl
  mapAt := fun _ _ => rfl
  faults := rfl

/-- No two entries have the same address. -/
theorem dma_inj (h : Obtained c d lo m n t) {i j : Nat} (hi : lo ≤ i) (him : i < m) (hj : lo ≤ j)
    (hjm : j < m) (he : t.ext.bufDmaT i = t.ext.bufDmaT j) : i = j := by
  have hmap := (h.mapped i hi him).2.1
  rw [he, (h.mapped j hj hjm).2.1, Option.some.injEq] at hmap
  omega

/-- Entry `n` gets its pages. -/
theorem alloc (h : Obtained c d 0 n n t) (hnext : t.kern.next = d.kern.next + n) (hn : n < c.nofbufs)
    (pfn : Nat) :
    Obtained c d 0 n (n + 1)
      { t with
        kern := { t.kern with
          next := t.kern.next + 1
          pages := Function.update t.kern.pages t.kern.next (some ⟨pfn, none⟩) }
        ext := { t.ext with
          bufPage := Function.update t.ext.bufPage n (some t.kern.next)
          bufDmaT := Function.update t.ext.bufDmaT n 0 } } := by
  have hdma : Function.update t.ext.bufDmaT n 0 = t.ext.bufDmaT := by
    rw [← h.noMap n hn (.inr (Nat.le_refl n)), Function.update_eq_self]
  have hne : ∀ i, i < n → d.kern.next + i ≠ t.kern.next := fun i hi => by omega
  rw [hdma]
  constructor
  · exact Nat.le_succ n
  · intro i _ hi
    by_cases hin : i = n
    · subst hin
      simp [hnext]
    · simp only [Function.update_of_ne hin]
      exact h.page i (Nat.zero_le i) (by omega)
  · intro i hi hout
    simp only [Function.update_of_ne (show i ≠ n by omega)]
    exact h.noPage i hi (.inr (by omega))
  · exact h.noMap
  · intro i _ hi
    by_cases hin : i = n
    · subst hin
      exact ⟨pfn, by simp [← hnext]⟩
    · obtain ⟨q, hq⟩ := h.block i (Nat.zero_le i) (by omega)
      exact ⟨q, by rw [← hq]; exact Function.update_of_ne (hne i (by omega)) ..⟩
  · exact h.mapped
  · intro p hp
    have hpn : p ≠ t.kern.next := hnext ▸ hp n (Nat.zero_le n) (Nat.lt_succ_self n)
    rw [← h.pages p fun i hlo hi => hp i hlo (by omega)]
    exact Function.update_of_ne hpn ..
  · exact h.mapAt
  · exact h.faults

/-- Entry `n` gets its pages and is mapped at an address that is not in use. -/
theorem map (h : Obtained c d 0 n n t) (hnext : t.kern.next = d.kern.next + n) (hn : n < c.nofbufs)
    (pfn : Nat) {a : DmaAddr} (ha : a ≠ 0) (hfree : t.kern.mapAt a = none) :
    Obtained c d 0 (n + 1) (n + 1)
      { t with
        kern := { t.kern with
          next := t.kern.next + 1
          pages := Function.update t.kern.pages t.kern.next (some ⟨pfn, some a⟩)
          mapAt := Function.update t.kern.mapAt a (some t.kern.next) }
        ext := { t.ext with
          bufPage := Function.update t.ext.bufPage n (some t.kern.next)
          bufDmaT := Function.update t.ext.bufDmaT n a } } := by
  have hpages := h.alloc hnext hn pfn
  -- the address is not one of the earlier ones, which are in use
  have hnew : ∀ i, i < n → t.ext.bufDmaT i ≠ a := by
    intro i hi he
    have hmap := (h.mapped i (Nat.zero_le i) hi).2.1
    rw [he, hfree] at hmap
    cases hmap
  have hold : d.kern.mapAt a = none := by
    rw [← h.mapAt a fun i _ hi he => hnew i hi he.symm]
    exact hfree
  constructor
  · exact Nat.le_refl _
  · exact hpages.page
  · exact hpages.noPage
  · intro i hi hout
    simp only [Function.update_of_ne (show i ≠ n by omega)]
    exact h.noMap i hi (.inr (by omega))
  · intro i hlo hi
    by_cases hin : i = n
    · subst hin
      exact ⟨pfn, by simp [← hnext]⟩
    · obtain ⟨q, hq⟩ := h.block i hlo (by omega)
      refine ⟨q, ?_⟩
      simp only [Function.update_of_ne (show d.kern.next + i ≠ t.kern.next by omega),
        Function.update_of_ne hin, hq, if_pos hi, if_pos (show i < n by omega)]
  · intro i hlo hi
    by_cases hin : i = n
    · subst hin
      simp only [Function.update_self]
      exact ⟨ha, by rw [hnext], hold⟩
    · obtain ⟨h0, hmap, hd⟩ := h.mapped i hlo (by omega)
      simp only [Function.update_of_ne hin, Function.update_of_ne (hnew i (by omega))]
      exact ⟨h0, hmap, hd⟩
  · intro p hp
    have hpn : p ≠ t.kern.next := hnext ▸ hp n (Nat.zero_le n) (Nat.lt_succ_self n)
    rw [← h.pages p fun i hlo hi => hp i hlo (by omega)]
    exact Function.update_of_ne hpn ..
  · intro b hb
    have hbn : b ≠ a := by simpa using hb n (Nat.zero_le n) (Nat.lt_succ_self n)
    rw [← h.mapAt b fun i hlo hi => by
      simpa [Function.update_of_ne (show i ≠ n by omega)] using hb i hlo (by omega)]
    exact Function.update_of_ne hbn ..
  · exact h.faults

/-- The tables after the calls for entry `lo`: its pages and its mapping are gone. -/
theorem release_tables (h : Obtained c d lo m n t) (hunused : d.kern.Unused) (hlo : lo < c.nofbufs) :
    ∃ blocks maps,
      (releaseCalls t.ext lo).foldl Kernel.release t.kern =
        { t.kern with pages := blocks, mapAt := maps } ∧
      (∀ p, blocks p = if p = d.kern.next + lo then none else t.kern.pages p) ∧
      ∀ a, maps a = if lo < m ∧ a = t.ext.bufDmaT lo then none else t.kern.mapAt a := by
  by_cases hm : lo < m
  · obtain ⟨h0, hmap, -⟩ := h.mapped lo (Nat.le_refl lo) hm
    obtain ⟨pfn, hblock⟩ := h.block lo (Nat.le_refl lo) (by have := h.le; omega)
    have hp := h.page lo (Nat.le_refl lo) (by have := h.le; omega)
    rw [if_pos hm] at hblock
    refine ⟨Function.update (Function.update t.kern.pages (d.kern.next + lo) (some ⟨pfn, none⟩))
      (d.kern.next + lo) none, Function.update t.kern.mapAt (t.ext.bufDmaT lo) none, ?_, ?_, ?_⟩
    · simp only [releaseCalls, if_neg h0, hp, Option.toList_some, List.map_cons, List.map_nil,
        List.cons_append, List.nil_append, List.foldl_cons, List.foldl_nil, Kernel.release,
        Kernel.dmaUnmapPage, hmap, hblock, Option.map_some, Kernel.freePages, Function.update_self]
    · intro p
      rw [Function.update_idem, Function.update_apply]
    · intro a
      simp only [Function.update_apply, hm, true_and]
  · have h0 : t.ext.bufDmaT lo = 0 := h.noMap lo hlo (.inr (by omega))
    by_cases hn : lo < n
    · obtain ⟨pfn, hblock⟩ := h.block lo (Nat.le_refl lo) hn
      have hp := h.page lo (Nat.le_refl lo) hn
      rw [if_neg hm] at hblock
      refine ⟨Function.update t.kern.pages (d.kern.next + lo) none, t.kern.mapAt, ?_, ?_, ?_⟩
      · simp only [releaseCalls, if_pos h0, hp, Option.toList_some, List.map_cons, List.map_nil,
          List.nil_append, List.foldl_cons, List.foldl_nil, Kernel.release, Kernel.freePages, hblock]
      · intro p
        rw [Function.update_apply]
      · intro a
        simp only [hm, false_and, if_false]
    · have hp : t.ext.bufPage lo = none := h.noPage lo hlo (.inr (by omega))
      have hnone : t.kern.pages (d.kern.next + lo) = none := by
        rw [h.pages _ fun i hli hi => by omega]
        exact hunused.pages _ (Nat.le_add_right ..)
      refine ⟨t.kern.pages, t.kern.mapAt, ?_, ?_, ?_⟩
      · simp only [releaseCalls, if_pos h0, hp, Option.toList_none, List.map_nil, List.append_nil,
          List.foldl_nil]
      · intro p
        split
        · rename_i he
          rw [he, hnone]
        · rfl
      · intro a
        simp only [hm, false_and, if_false]

/-- An iteration of the release loop gives back what its entry has, the mapping first. -/
theorem release (h : Obtained c d lo m n t) (hunused : d.kern.Unused) (hlo : lo < c.nofbufs) :
    Obtained c d (lo + 1) m n (releaseBuffer lo t) := by
  have hgone : d.kern.pages (d.kern.next + lo) = none := hunused.pages _ (Nat.le_add_right ..)
  have hpage : ∀ i, lo + 1 ≤ i → Function.update t.ext.bufPage lo none i = t.ext.bufPage i :=
    fun i hi => Function.update_of_ne (by omega) ..
  have hdma : ∀ i, lo + 1 ≤ i → Function.update t.ext.bufDmaT lo 0 i = t.ext.bufDmaT i :=
    fun i hi => Function.update_of_ne (by omega) ..
  obtain ⟨blocks, maps, hk, hblocks, hmaps⟩ := h.release_tables hunused hlo
  rw [releaseBuffer_eq, hk]
  constructor
  · exact h.le
  · intro i hi hin
    exact (hpage i hi).trans (h.page i (by omega) hin)
  · intro i hi hout
    show Function.update t.ext.bufPage lo none i = none
    by_cases hil : i = lo
    · rw [hil, Function.update_self]
    · rw [Function.update_of_ne hil]
      exact h.noPage i hi (by omega)
  · intro i hi hout
    show Function.update t.ext.bufDmaT lo 0 i = 0
    by_cases hil : i = lo
    · rw [hil, Function.update_self]
    · rw [Function.update_of_ne hil]
      exact h.noMap i hi (by omega)
  · intro i hi hin
    obtain ⟨pfn, hblock⟩ := h.block i (by omega) hin
    refine ⟨pfn, ?_⟩
    show blocks (d.kern.next + i) =
      some ⟨pfn, if i < m then some (Function.update t.ext.bufDmaT lo 0 i) else none⟩
    rw [hblocks, if_neg (by omega), hblock, hdma i hi]
  · intro i hi him
    obtain ⟨h0, hmap, hold⟩ := h.mapped i (by omega) him
    show Function.update t.ext.bufDmaT lo 0 i ≠ 0 ∧ maps (Function.update t.ext.bufDmaT lo 0 i) = _ ∧
      d.kern.mapAt (Function.update t.ext.bufDmaT lo 0 i) = none
    rw [hdma i hi, hmaps, if_neg]
    · exact ⟨h0, hmap, hold⟩
    · rintro ⟨hlm, he⟩
      have := h.dma_inj (show lo ≤ i by omega) him (Nat.le_refl lo) hlm he
      omega
  · intro p hp
    show blocks p = _
    rw [hblocks]
    by_cases hpl : p = d.kern.next + lo
    · rw [if_pos hpl, hpl, hgone]
    · rw [if_neg hpl]
      refine h.pages p fun i hi hin => ?_
      by_cases hil : i = lo
      · rw [hil]
        exact hpl
      · exact hp i (by omega) hin
  · intro a ha
    have ha' : ∀ i, lo + 1 ≤ i → i < m → a ≠ t.ext.bufDmaT i :=
      fun i hi him => hdma i hi ▸ ha i hi him
    show maps a = _
    rw [hmaps]
    by_cases hal : lo < m ∧ a = t.ext.bufDmaT lo
    · rw [if_pos hal, hal.2, (h.mapped lo (Nat.le_refl lo) hal.1).2.2]
    · rw [if_neg hal]
      refine h.mapAt a fun i hi him => ?_
      by_cases hil : i = lo
      · rw [hil]
        exact fun he => hal ⟨by omega, he⟩
      · exact ha' i (by omega) him
  · exact h.faults

/-- The release loop takes the tables back to what they were. -/
theorem releaseAll (h : Obtained c d 0 m n t) (hunused : d.kern.Unused) :
    Obtained c d c.nofbufs m n (upTo releaseBuffer c.nofbufs t) :=
  upTo_invariant (fun lo t => Obtained c d lo m n t) h fun _ _ hlo hI => hI.release hunused hlo

/-- The calls of the release loop, read off the state in which it starts. -/
theorem mem_releaseTrace {x : Release} :
    x ∈ releaseTrace c.nofbufs t ↔ ∃ i, i < c.nofbufs ∧ x ∈ releaseCalls t.ext i := by
  rw [releaseTrace_eq, List.mem_flatMap]
  exact exists_congr fun i => and_congr_left fun _ => List.mem_range

theorem unmapPage_mem_iff (h : Obtained c d 0 m n t) {i : Nat} (hi : i < c.nofbufs) {a : DmaAddr} :
    .unmapPage a ∈ releaseCalls t.ext i ↔ i < m ∧ a = t.ext.bufDmaT i := by
  unfold releaseCalls
  by_cases him : i < m
  · rw [if_neg (h.mapped i (Nat.zero_le i) him).1]
    simp [him]
  · rw [if_pos (h.noMap i hi (.inr (by omega)))]
    simp [him]

theorem freePages_mem_iff (h : Obtained c d 0 m n t) {i : Nat} (hi : i < c.nofbufs) {p : Nat} :
    .freePages p ∈ releaseCalls t.ext i ↔ i < n ∧ p = d.kern.next + i := by
  have hpage : .freePages p ∈ releaseCalls t.ext i ↔ t.ext.bufPage i = some p := by
    unfold releaseCalls
    split <;> simp
  rw [hpage]
  by_cases hin : i < n
  · rw [h.page i (Nat.zero_le i) hin, Option.some.injEq]
    exact ⟨fun e => ⟨hin, e.symm⟩, fun e => e.2.symm⟩
  · rw [h.noPage i hi (.inr (by omega))]
    exact ⟨fun e => (by cases e), fun e => absurd e.1 hin⟩

/-- The mappings that were obtained are those of the entries. -/
theorem mapAt_new_iff (h : Obtained c d 0 m n t) {a : DmaAddr} {p : Nat} :
    d.kern.mapAt a = none ∧ t.kern.mapAt a = some p ↔
      ∃ i, i < m ∧ a = t.ext.bufDmaT i ∧ p = d.kern.next + i := by
  constructor
  · rintro ⟨hold, hnew⟩
    by_contra hno
    have hsame := h.mapAt a fun i _ him ha => hno ⟨i, him, ha, by
      rw [ha, (h.mapped i (Nat.zero_le i) him).2.1, Option.some.injEq] at hnew
      exact hnew.symm⟩
    rw [hnew, hold] at hsame
    cases hsame
  · rintro ⟨i, him, rfl, rfl⟩
    exact ⟨(h.mapped i (Nat.zero_le i) him).2.2, (h.mapped i (Nat.zero_le i) him).2.1⟩

/-- The page blocks that were obtained are those of the entries. -/
theorem pages_new_iff (h : Obtained c d 0 m n t) (hunused : d.kern.Unused) {p : Nat} :
    d.kern.pages p = none ∧ t.kern.pages p ≠ none ↔ ∃ i, i < n ∧ p = d.kern.next + i := by
  constructor
  · rintro ⟨hold, hnew⟩
    by_contra hno
    refine hnew ?_
    rw [h.pages p fun i _ hin hp => hno ⟨i, hin, hp⟩, hold]
  · rintro ⟨i, hin, rfl⟩
    obtain ⟨pfn, hblock⟩ := h.block i (Nat.zero_le i) hin
    exact ⟨hunused.pages _ (Nat.le_add_right ..), by rw [hblock]; exact Option.some_ne_none _⟩

theorem releaseTrace_nodup (h : Obtained c d 0 m n t) : (releaseTrace c.nofbufs t).Nodup := by
  rw [releaseTrace_eq, List.nodup_flatMap]
  constructor
  · intro i _
    unfold releaseCalls
    split <;> cases t.ext.bufPage i <;> simp
  · refine List.nodup_range.pairwise_of_forall_ne fun i hi j hj hij x hxi hxj => ?_
    have hlt := List.mem_range.mp hi
    have hlt' := List.mem_range.mp hj
    -- a call names the address or the pages, and these belong to one entry
    cases x with
    | unmapPage a =>
        obtain ⟨him, hai⟩ := (h.unmapPage_mem_iff hlt).mp hxi
        obtain ⟨hjm, haj⟩ := (h.unmapPage_mem_iff hlt').mp hxj
        exact hij (h.dma_inj (Nat.zero_le i) him (Nat.zero_le j) hjm (hai.symm.trans haj))
    | freePages p =>
        have hpi := ((h.freePages_mem_iff hlt).mp hxi).2
        have hpj := ((h.freePages_mem_iff hlt').mp hxj).2
        omega

/-- A buffer is unmapped before its pages are freed. -/
theorem releaseTrace_order (h : Obtained c d 0 m n t) (hn : n ≤ c.nofbufs) {i : Nat} (hi : i < m) :
    [.unmapPage (t.ext.bufDmaT i), .freePages (d.kern.next + i)].Sublist
      (releaseTrace c.nofbufs t) := by
  have hle := h.le
  have hcalls : releaseCalls t.ext i =
      [.unmapPage (t.ext.bufDmaT i), .freePages (d.kern.next + i)] := by
    simp only [releaseCalls, if_neg (h.mapped i (Nat.zero_le i) hi).1,
      h.page i (Nat.zero_le i) (by omega), Option.toList_some, List.map_cons, List.map_nil,
      List.cons_append, List.nil_append]
  rw [releaseTrace_eq, ← hcalls, List.flatMap_def]
  exact List.sublist_flatten_of_mem (List.mem_map_of_mem (List.mem_range.mpr (by omega)))

end Obtained

/-! ## A failed `ALLOC_BUFFERS` -/

/-- What the first `n` iterations of the allocation loop obtain, when none of them fails. -/
theorem allocLoop_obtained {env : AllocEnv} {n : Nat} (hn : n ≤ c.nofbufs)
    (hpage : ∀ i, i < c.nofbufs → d.ext.bufPage i = none)
    (hdma : ∀ i, i < c.nofbufs → d.ext.bufDmaT i = 0)
    (h : forUpTo (allocBuffer env) n d = .ok t) :
    Obtained c d 0 n n t ∧ t.kern.next = d.kern.next + n ∧
      ∀ i, i < n → env.pages i ≠ none ∧ env.maps i ≠ 0 := by
  refine forUpTo_ok (fun n t => Obtained c d 0 n n t ∧ t.kern.next = d.kern.next + n ∧
    ∀ i, i < n → env.pages i ≠ none ∧ env.maps i ≠ 0)
    ⟨.zero hpage hdma, rfl, fun i hi => absurd hi (Nat.not_lt_zero i)⟩ ?_ h
  rintro i t t' hi ⟨hobtained, hnext, hgranted⟩ hb
  obtain ⟨-, he⟩ | ⟨pfn, hpfn, ⟨-, he⟩ | ⟨⟨ha, hfree⟩, he⟩⟩ := allocBuffer_cases env i t
  · simp [he] at hb
  · simp [he] at hb
  · rw [he, Except.ok.injEq] at hb
    subst hb
    refine ⟨hobtained.map hnext (by omega) pfn ha hfree, ?_, fun j hj => ?_⟩
    · show t.kern.next + 1 = _
      omega
    · by_cases hji : j = i
      · rw [hji, hpfn]
        exact ⟨Option.some_ne_none _, ha⟩
      · exact hgranted j (by omega)

/-- What there is to give back at `err1`, whichever allocation failed. -/
theorem AllocFailed.obtained {env : AllocEnv} (h : AllocFailed c env d u)
    (hpage : ∀ i, i < c.nofbufs → d.ext.bufPage i = none)
    (hdma : ∀ i, i < c.nofbufs → d.ext.bufDmaT i = 0) :
    ∃ m n, n ≤ c.nofbufs ∧ Obtained c d 0 m n u := by
  cases h with
  | @buffer i t _ rc hi ht hu =>
      obtain ⟨hobtained, hnext, -⟩ := allocLoop_obtained (Nat.le_of_lt hi) hpage hdma ht
      obtain ⟨-, he⟩ | ⟨pfn, -, ⟨-, he⟩ | ⟨-, he⟩⟩ := allocBuffer_cases env i t
      · -- no pages: the entry is overwritten with what it held
        have hclear : Function.update t.ext.bufPage i none = t.ext.bufPage := by
          rw [← hobtained.noPage i hi (.inr (Nat.le_refl i)), Function.update_eq_self]
        simp only [he, hclear, Except.error.injEq, Prod.mk.injEq] at hu
        obtain ⟨rfl, -⟩ := hu
        exact ⟨i, i, Nat.le_of_lt hi, hobtained⟩
      · simp only [he, Except.error.injEq, Prod.mk.injEq] at hu
        obtain ⟨rfl, -⟩ := hu
        exact ⟨i, i + 1, hi, hobtained.alloc hnext hi pfn⟩
      · simp [he] at hu
  | copy ht =>
      obtain ⟨hobtained, -, -⟩ := allocLoop_obtained (Nat.le_refl _) hpage hdma ht
      exact ⟨c.nofbufs, c.nofbufs, Nat.le_refl _, { hobtained with }⟩
  | kfifo junk ht =>
      obtain ⟨hobtained, -, -⟩ := allocLoop_obtained (Nat.le_refl _) hpage hdma ht
      exact ⟨c.nofbufs, c.nofbufs, Nat.le_refl _, { hobtained with }⟩

/-- The copies of the descriptors at `err1`: none, or those that were just allocated. -/
theorem AllocFailed.copies {env : AllocEnv} (h : AllocFailed c env d u) (hcopy : d.ext.descCopy = none) :
    u.ext.descCopy = none ∧ u.kern.copies = d.kern.copies ∨
      ∃ v junk, d.kern.next ≤ v ∧ u.ext.descCopy = some v ∧
        u.kern.copies = Function.update d.kern.copies v (some junk) := by
  cases h with
  | @buffer i t _ rc hi ht hu =>
      obtain ⟨_, _, _, _, _, _, -, he⟩ := (allocLoop_buffersOnly ht).trans (allocBuffer_error hu).1
      rw [he]
      exact .inl ⟨hcopy, rfl⟩
  | copy ht =>
      obtain ⟨_, _, _, _, _, _, -, he⟩ := allocLoop_buffersOnly ht
      rw [he]
      exact .inl ⟨rfl, rfl⟩
  | kfifo junk ht =>
      obtain ⟨_, _, _, _, _, _, hle, he⟩ := allocLoop_buffersOnly ht
      rw [he]
      exact .inr ⟨_, junk, hle, rfl, rfl⟩

/-- `vfree` in the `err1` path. -/
theorem releaseCopy_of_failed {env : AllocEnv} (h : AllocFailed c env d u) (hunused : d.kern.Unused)
    (hcopy : d.ext.descCopy = none) (hsame : t.kern.copies = u.kern.copies)
    (hsame' : t.ext.descCopy = u.ext.descCopy) :
    t.releaseCopy = { t with
      kern := { t.kern with copies := d.kern.copies }
      ext := { t.ext with descCopy := none } } := by
  obtain ⟨hnone, hcopies⟩ | ⟨v, junk, hv, hsome, hcopies⟩ := h.copies hcopy
  · rw [← hsame'] at hnone
    rw [← hcopies, ← hsame]
    simp only [releaseCopy, hnone]
    rw [← hnone]
  · rw [← hsame'] at hsome
    have hgone : Function.update (Function.update d.kern.copies v (some junk)) v none =
        d.kern.copies := by
      rw [Function.update_idem, ← hunused.copies v hv, Function.update_eq_self]
    simp only [releaseCopy, hsome, Kernel.vfreeCopy, hsame, hcopies, Function.update_self, hgone]

/-- `ALLOC_BUFFERS` went to `err1` in state `u` and left `d'`. -/
structure RolledBack (c : WzConsts) (d u d' : Driver) : Prop where
  once : (releaseTrace c.nofbufs u).Nodup
  unmapped : ∀ a, .unmapPage a ∈ releaseTrace c.nofbufs u ↔
    d.kern.mapAt a = none ∧ u.kern.mapAt a ≠ none
  freed : ∀ p, .freePages p ∈ releaseTrace c.nofbufs u ↔
    d.kern.pages p = none ∧ u.kern.pages p ≠ none
  order : ∀ a p, d.kern.mapAt a = none → u.kern.mapAt a = some p →
    [.unmapPage a, .freePages p].Sublist (releaseTrace c.nofbufs u)
  pages : d'.kern.pages = d.kern.pages
  mapAt : d'.kern.mapAt = d.kern.mapAt
  copies : d'.kern.copies = d.kern.copies
  faults : d'.kern.faults = d.kern.faults
  bufPage : ∀ i, i < c.nofbufs → d'.ext.bufPage i = none
  bufDmaT : ∀ i, i < c.nofbufs → d'.ext.bufDmaT i = 0
  descCopy : d'.ext.descCopy = none
  bufReady : d'.ext.bufReady = false

theorem AllocFailed.rolledBack {env : AllocEnv} (h : AllocFailed c env d u) (hunused : d.kern.Unused)
    (hpage : ∀ i, i < c.nofbufs → d.ext.bufPage i = none)
    (hdma : ∀ i, i < c.nofbufs → d.ext.bufDmaT i = 0) (hcopy : d.ext.descCopy = none)
    (ht : t = (upTo releaseBuffer c.nofbufs u).releaseCopy) :
    RolledBack c d u { t with ext := { t.ext with bufReady := false } } := by
  obtain ⟨m, n, hn, hobtained⟩ := h.obtained hpage hdma
  have hle := hobtained.le
  have hall := hobtained.releaseAll hunused
  obtain ⟨_, _, _, _, _, _, -, hframe⟩ := releaseAll_buffersOnly c.nofbufs u
  have hcopies := releaseCopy_of_failed (t := upTo releaseBuffer c.nofbufs u) h hunused hcopy
    (by rw [hframe]) (by rw [hframe])
  rw [ht, hcopies]
  constructor
  · exact hobtained.releaseTrace_nodup
  · intro a
    rw [Obtained.mem_releaseTrace]
    constructor
    · rintro ⟨i, hi, hmem⟩
      obtain ⟨him, ha⟩ := (hobtained.unmapPage_mem_iff hi).mp hmem
      obtain ⟨hold, hnew⟩ := hobtained.mapAt_new_iff.mpr ⟨i, him, ha, rfl⟩
      exact ⟨hold, by rw [hnew]; exact Option.some_ne_none _⟩
    · rintro ⟨hold, hnew⟩
      obtain ⟨p, hp⟩ := Option.ne_none_iff_exists'.mp hnew
      obtain ⟨i, him, ha, -⟩ := hobtained.mapAt_new_iff.mp ⟨hold, hp⟩
      exact ⟨i, by omega, (hobtained.unmapPage_mem_iff (by omega)).mpr ⟨him, ha⟩⟩
  · intro p
    rw [Obtained.mem_releaseTrace, hobtained.pages_new_iff hunused]
    constructor
    · rintro ⟨i, hi, hmem⟩
      exact ⟨i, (hobtained.freePages_mem_iff hi).mp hmem⟩
    · rintro ⟨i, hin, hp⟩
      exact ⟨i, by omega, (hobtained.freePages_mem_iff (by omega)).mpr ⟨hin, hp⟩⟩
  · intro a p hold hnew
    obtain ⟨i, him, rfl, rfl⟩ := hobtained.mapAt_new_iff.mp ⟨hold, hnew⟩
    exact hobtained.releaseTrace_order hn him
  · exact funext fun p => hall.pages p fun i hi hin => by omega
  · exact funext fun a => hall.mapAt a fun i hi him => by omega
  · rfl
  · exact hall.faults
  · exact fun i hi => hall.noPage i hi (.inl hi)
  · exact fun i hi => hall.noMap i hi (.inl hi)
  · rfl
  · rfl

end Driver

/-- An allocation of `ALLOC_BUFFERS` fails: the pages or the mapping of a buffer, the copies of the
descriptors, or the FIFO. -/
def AllocEnv.Fails (env : AllocEnv) (c : WzConsts) : Prop :=
  (∃ k, k < c.nofbufs ∧ (env.pages k = none ∨ env.maps k = 0)) ∨ env.copy = none ∨ env.kfifo = false

/-- `ALLOC_BUFFERS` on clear entries gives back exactly what it was given, whichever allocation
fails. -/
theorem alloc_failure_rolls_back (c : WzConsts) (env : AllocEnv) (d : Driver)
    (hunused : d.kern.Unused) (hpage : ∀ i, i < c.nofbufs → d.ext.bufPage i = none)
    (hdma : ∀ i, i < c.nofbufs → d.ext.bufDmaT i = 0) (hcopy : d.ext.descCopy = none)
    (hfails : env.Fails c) :
    (d.ioctlDoWzAllocBuffers c env).2 < 0 ∧
      ∃ u, Driver.AllocFailed c env d u ∧
        (Lib.Loop.upTo Driver.releaseBuffer c.nofbufs u).kern =
          (Driver.releaseTrace c.nofbufs u).foldl Kernel.release u.kern ∧
        Driver.RolledBack c d u (d.ioctlDoWzAllocBuffers c env).1 := by
  obtain ⟨t, junk, ht, he⟩ | ⟨u, t, hu, ht, he⟩ := Driver.ioctlDoWzAllocBuffers_cases c env d
  · exfalso
    obtain ⟨-, -, hgranted⟩ := Driver.allocLoop_obtained (Nat.le_refl _) hpage hdma ht
    rcases hfails with ⟨k, hk, hnone | hzero⟩ | hrest
    · exact (hgranted k hk).1 hnone
    · exact (hgranted k hk).2 hzero
    · -- the loop went through, so the routine ended in `err1` behind it
      have hrc : (d.ioctlDoWzAllocBuffers c env).2 = -enomem := by
        unfold Driver.ioctlDoWzAllocBuffers Driver.allocTry
        rw [ht]
        rcases hrest with hnone | hfifo
        · simp [Kernel.vmallocCopy, hnone]
        · cases env.copy <;> simp [Kernel.vmallocCopy, hfifo]
      rw [he] at hrc
      exact absurd (show (0 : Int) = -enomem from hrc) (by decide)
  · rw [he]
    refine ⟨?_, u, hu, Driver.releaseTrace_kern .., hu.rolledBack hunused hpage hdma hcopy ht⟩
    show -enomem < 0
    decide

theorem Kernel.Unused.fresh : Kernel.fresh.Unused := ⟨fun _ _ => rfl, fun _ _ => rfl, fun _ _ => rfl⟩

/-- The second of two buffers cannot be mapped: one mapping and two page blocks are given back. -/
theorem alloc_failure_rolls_back_second_map :
    ∃ env : AllocEnv, env.Fails twoBuffers.toWzConsts ∧
      (Driver.created.ioctlDoWzAllocBuffers twoBuffers.toWzConsts env).2 < 0 ∧
      ∃ u, Driver.AllocFailed twoBuffers.toWzConsts env .created u ∧
        Driver.RolledBack twoBuffers.toWzConsts .created u
          (Driver.created.ioctlDoWzAllocBuffers twoBuffers.toWzConsts env).1 := by
  let env : AllocEnv := { allocGranted with maps := fun i => if i = 1 then 0 else allocGranted.maps i }
  have hfails : env.Fails twoBuffers.toWzConsts := .inl ⟨1, by decide, .inr rfl⟩
  obtain ⟨hrc, u, hu, -, hback⟩ := alloc_failure_rolls_back twoBuffers.toWzConsts env .created
    .fresh (fun _ _ => rfl) (fun _ _ => rfl) rfl hfails
  exact ⟨env, hfails, hrc, u, hu, hback⟩

end WzXdma
