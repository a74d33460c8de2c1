import WzXdma.Pointers

/-!
# The addresses START programs

`buf_dma_t` holds the addresses of the mapped buffers after `ALLOC_BUFFERS`.  Entries
are cleared by `START` and `STOP` when they free a descriptor, though no buffer was
unmapped, and a later `START` then programs address 0.  So each entry is the mapped
address or 0 for as long as the buffers are ready, and `start_programs_mapped_iff`
says which it is.
-/

namespace WzXdma

open Lib.Loop

namespace Driver

variable {c : WzConsts} {d d' : Driver}

/-- After the allocation loop each entry is what `dma_map_page` returned. -/
theorem allocLoop_dma {env : AllocEnv} {n : Nat} (h : forUpTo (allocBuffer env) n d = .ok d') :
    ∀ i, i < n → d'.ext.bufDmaT i = env.maps i ∧ env.maps i ≠ 0 := by
  refine forUpTo_ok (fun n (t : Driver) => ∀ i, i < n → t.ext.bufDmaT i = env.maps i ∧ env.maps i ≠ 0)
    (fun i hi => absurd hi (Nat.not_lt_zero i)) ?_ h
  intro n t t' _ hI hb i hi
  obtain ⟨-, he⟩ | ⟨pfn, -, ⟨-, he⟩ | ⟨⟨h0, -⟩, he⟩⟩ := allocBuffer_cases env n t
  · simp [he] at hb
  · simp [he] at hb
  · rw [he, Except.ok.injEq] at hb
    subst hb
    by_cases hin : i = n
    · subst hin
      exact ⟨Function.update_self .., h0⟩
    · simp only [Function.update_of_ne hin]
      exact hI i (by omega)

theorem releaseCopy_bufReady (d : Driver) : d.releaseCopy.ext.bufReady = d.ext.bufReady := by
  obtain ⟨-, he⟩ | ⟨v, fs, -, he⟩ := d.releaseCopy_cases <;> rw [he]

theorem freeBuffers_bufReady (c : WzConsts) (d : Driver) :
    (ioctlDoWzFreeBuffers c d).1.ext.bufReady = false := by
  unfold ioctlDoWzFreeBuffers
  rw [releaseCopy_bufReady]

/-- Entries of `buf_dma_t` are those of `d` or cleared, and the rest of the buffers is
as in `d`. -/
structure Cleared (d t : Driver) : Prop where
  bufReady : t.ext.bufReady = d.ext.bufReady
  kfifoSize : t.ext.kfifoSize = d.ext.kfifoSize
  dma : ∀ i, t.ext.bufDmaT i = d.ext.bufDmaT i ∨ t.ext.bufDmaT i = 0

/-- `START` clears entries of `buf_dma_t` at most. -/
theorem start_cleared {env : StartEnv} {rc : Int} (h : ioctlDoWzStart c env d = .ok (d', rc)) :
    Cleared d d' := by
  have hclean : ∀ i (t : Driver), Cleared d t → ∀ j,
      Function.update t.ext.bufDmaT i (if (t.ext.desc i).isSome then 0 else t.ext.bufDmaT i) j =
        d.ext.bufDmaT j ∨ Function.update t.ext.bufDmaT i
          (if (t.ext.desc i).isSome then 0 else t.ext.bufDmaT i) j = 0 := by
    intro i t ht j
    by_cases hji : j = i
    · subst hji
      rw [Function.update_self]
      split
      · exact .inr rfl
      · exact ht.dma j
    · rw [Function.update_of_ne hji]
      exact ht.dma j
  refine ioctlDoWzStart_invariant (Cleared d) ?_ ?_ ?_ ?_ ?_ ?_ ?_ ?_ h ⟨rfl, rfl, fun i => .inl rfl⟩
  · exact fun _ ht => ⟨ht.bufReady, ht.kfifoSize, ht.dma⟩
  · intro i t _ ht
    obtain ⟨coh, fs, he, -⟩ := startClean_eq i t
    rw [he]
    exact ⟨ht.bufReady, ht.kfifoSize, hclean i t ht⟩
  · intro i t t' _ ht hb
    obtain ⟨mem, coh, fs, -, rfl, -⟩ := startBuild_ok hb
    exact ⟨ht.bufReady, ht.kfifoSize, hclean i t ht⟩
  · exact fun _ _ _ ht _ => ⟨ht.bufReady, ht.kfifoSize, ht.dma⟩
  · intro i t t' _ ht hf
    obtain ⟨x, bus, y, rest, v, arr, -, -, -, -, rfl⟩ := startFill_ok hf
    exact ⟨ht.bufReady, ht.kfifoSize, ht.dma⟩
  · intro t t' ht hq
    obtain ⟨tr, e, rfl, -⟩ := startQueue_ok hq
    exact ⟨ht.bufReady, ht.kfifoSize, ht.dma⟩
  · exact fun _ ht => ⟨ht.bufReady, ht.kfifoSize, ht.dma⟩
  · exact fun _ _ _ ht => ⟨ht.bufReady, ht.kfifoSize, ht.dma⟩

end Driver

/-- While the buffers are ready, the FIFO has an entry for each of them, and every entry
of `buf_dma_t` is the address that was mapped or has been cleared. -/
def MappedInv (c : WzConsts) (s : Sys) : Prop :=
  s.drv.ext.bufReady = true → s.drv.ext.kfifoSize = c.nofbufs ∧ ∀ i, i < c.nofbufs →
    s.mapped i ≠ 0 ∧ (s.drv.ext.bufDmaT i = s.mapped i ∨ s.drv.ext.bufDmaT i = 0)

theorem MappedInv.step {c : WzConsts} {s s' : Sys} {a : Act} (h : MappedInv c s)
    (hs : Sys.step c s a = some s') : MappedInv c s' := by
  have heffect := Sys.step_effect hs
  obtain ⟨d, rc, hd, rfl⟩ := Sys.step_eq_some hs
  intro hready
  -- entries may be cleared, and `mapped` changes with an allocation only
  have hkeep : s.mappedAfter rc a = s.mapped → Driver.Cleared s.drv d →
      d.ext.kfifoSize = c.nofbufs ∧ ∀ i, i < c.nofbufs → s.mappedAfter rc a i ≠ 0 ∧
        (d.ext.bufDmaT i = s.mappedAfter rc a i ∨ d.ext.bufDmaT i = 0) := by
    intro hm hc
    obtain ⟨hsize, hdma⟩ := h (hc.bufReady ▸ hready)
    refine ⟨hc.kfifoSize.trans hsize, fun i hi => ?_⟩
    obtain ⟨hne, hor⟩ := hdma i hi
    rw [hm]
    refine ⟨hne, ?_⟩
    rcases hc.dma i with he | he
    · rw [he]
      exact hor
    · exact .inr he
  have hsame : ∀ d' : Driver, d'.ext.bufReady = s.drv.ext.bufReady →
      d'.ext.kfifoSize = s.drv.ext.kfifoSize → d'.ext.bufDmaT = s.drv.ext.bufDmaT →
      Driver.Cleared s.drv d' :=
    fun d' h1 h2 h3 => ⟨h1, h2, fun i => .inl (by rw [h3])⟩
  cases heffect with
  | allocBuffers env =>
      obtain ⟨t, junk, ht, he⟩ | ⟨u, t, -, rfl, he⟩ := Driver.ioctlDoWzAllocBuffers_cases c env s.drv
      · rw [Sys.drvStep, he, Option.some.injEq, Prod.mk.injEq] at hd
        obtain ⟨-, rfl⟩ := hd
        rw [he]
        refine ⟨rfl, fun i hi => ?_⟩
        have hmaps := Driver.allocLoop_dma ht i hi
        exact ⟨hmaps.2, .inl hmaps.1⟩
      · rw [he] at hready
        cases hready
  | freeBuffers => exact absurd (hready.symm.trans (Driver.freeBuffers_bufReady c s.drv)) (by decide)
  | start hstart => exact hkeep rfl (Driver.start_cleared hstart)
  | stopFinish hrun =>
      obtain ⟨t, desc, dma, he, hdma⟩ := Driver.stopFinish_ext c s.drv
      refine hkeep rfl ⟨by rw [he], by rw [he], fun i => ?_⟩
      rw [he]
      exact hdma i
  | getbuf copyFails q hq => exact hkeep rfl (hsame _ rfl rfl rfl)
  | contents ha hk hrun hlist =>
      exact hkeep (by cases a <;> first | rfl | cases ha) (hsame _ rfl rfl rfl)
  | perfStart hperf =>
      exact hkeep rfl (hsame _ (by rw [hperf.ext]) (by rw [hperf.ext]) (by rw [hperf.ext]))
  | service hservice =>
      obtain ⟨b, e, rfl, -⟩ := Driver.service_ok hservice
      exact hkeep rfl (hsame _ rfl rfl rfl)
  | user ha => exact hkeep (by cases a <;> first | rfl | cases ha) (hsame _ rfl rfl rfl)

theorem Sys.Reachable.mappedInv {c : WzConsts} {s : Sys} (h : s.Reachable c) : MappedInv c s :=
  Lib.Machine.Reach.invariant (P := MappedInv c) (fun hready => by cases hready)
    (fun _ _ _ _ hP _ hs => hP.step hs) h

/-- `START` programs the mapped addresses, in the ring and in its copy, exactly when it
has no descriptor to clean and no entry of `buf_dma_t` was cleared before. -/
theorem start_programs_mapped_iff (c : RingConsts) (s : Sys) (hs : s.Reachable c.toWzConsts)
    (env : StartEnv) (d : Driver)
    (hstart : s.drv.ioctlDoWzStart c.toWzConsts env = .ok (d, 0)) :
    (∀ i, i < c.nofbufs →
      (∃ x, d.ringDesc i = some x ∧ x.dst = s.mapped i) ∧
        ∃ x, d.copyDesc i = some x ∧ x.dst = s.mapped i) ↔
      ∀ i, i < c.nofbufs → s.drv.ext.desc i = none ∧ s.drv.ext.bufDmaT i ≠ 0 := by
  have hst := Driver.start_ok c.nofbufs_pos hs.pointerInv.live.descOld hstart
  have hinv := (hs.mappedInv hst.ready).2
  constructor
  · intro h i hi
    obtain ⟨⟨x, hx, hdst⟩, -⟩ := h i hi
    obtain rfl := Option.some.inj ((hst.ringDesc_eq hi).symm.trans hx)
    rw [startDesc_dst, hst.dma i hi] at hdst
    cases hd : s.drv.ext.desc i with
    | some y =>
        rw [hd] at hdst
        exact absurd hdst.symm (hinv i hi).1
    | none =>
        rw [hd] at hdst
        refine ⟨rfl, fun h0 => (hinv i hi).1 ?_⟩
        rw [← hdst]
        exact h0
  · intro h i hi
    have hdst : (startDesc c.toWzConsts d.ext i).dst = s.mapped i := by
      obtain ⟨hd, hne⟩ := h i hi
      rw [startDesc_dst, hst.dma i hi, hd]
      exact (hinv i hi).2.resolve_right hne
    exact ⟨⟨_, hst.ringDesc_eq hi, hdst⟩, _, hst.copy i hi, hdst⟩

/-- The first start after the buffers were allocated. -/
theorem start_programs_mapped_first :
    ∃ (s : Sys) (d : Driver), s.Reachable twoBuffers.toWzConsts ∧
      s.drv.ioctlDoWzStart twoBuffers.toWzConsts startGranted = .ok (d, 0) ∧
      ∀ i, i < 2 → ∃ x, d.ringDesc i = some x ∧ x.dst = s.mapped i := by
  obtain ⟨s, d, hs, hd, hp⟩ := exists_start_of_exec twoBuffers.toWzConsts
    [.allocBuffers allocGranted] startGranted
    (fun s _ => (List.range 2).all fun i =>
      decide (s.drv.ext.desc i = none ∧ s.drv.ext.bufDmaT i ≠ 0)) (by decide +kernel)
  refine ⟨s, d, hs, hd, fun i hi => ?_⟩
  refine ((start_programs_mapped_iff twoBuffers s hs startGranted d hd).mpr (fun j hj => ?_) i hi).1
  simpa using List.all_eq_true.mp hp j (List.mem_range.mpr hj)

/-- Stopping and starting again without allocating anew. -/
theorem start_programs_zero_after_stop :
    ∃ (s : Sys) (d : Driver), s.Reachable wzConsts.toWzConsts ∧
      s.drv.ioctlDoWzStart wzConsts.toWzConsts startGranted = .ok (d, 0) ∧
      ∃ x, d.ringDesc 0 = some x ∧ x.dst ≠ s.mapped 0 := by
  obtain ⟨s, d, hs, hd, hp⟩ := exists_start_of_exec wzConsts.toWzConsts
    [.allocBuffers allocGranted, .start startGranted, .stopRequest, .service 1 0,
      .stopFinish] startGranted
    (fun s d => (d.ringDesc 0).any fun x => decide (x.dst ≠ s.mapped 0)) (by decide +kernel)
  obtain ⟨hx, hne⟩ := Option.any_eq_true_iff_get .. |>.mp hp
  exact ⟨s, d, hs, hd, _, (Option.some_get hx).symm, of_decide_eq_true hne⟩

end WzXdma
