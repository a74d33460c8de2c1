import WzXdma.System

/-!
# The mapping as a concatenation of the buffers

The length of a mapping is not looked at when it is created.  The only bound is the test of the
buffer number in `swz_mmap_fault`, which lets the number behind the last buffer pass.
-/

namespace WzXdma
namespace Driver

variable {c : RingConsts} {d : Driver}

/-- Inserting frame `page_to_pfn(buf_page[i]) + k`. -/
def insertPfn (d : Driver) (i k : Nat) : MmapFault :=
  match (d.ext.bufPage i).bind fun p => (d.kern.pages p).map fun block => (p, block.pfn) with
  | none => .insertedStray
  | some (p, pfn) => .inserted p (pfn + k)

/-- What a fault at `offset` should do: insert a frame of the buffer there, or nothing behind the
last one. -/
def FaultsAsConcat (c : WzConsts) (d : Driver) (offset : Nat) : Prop :=
  if offset < c.nofbufs * c.buflen then
    swzMmapFault c d offset = d.insertPfn (offset / c.buflen) (offset % c.buflen / pageSize)
  else swzMmapFault c d offset = .efault

/-- `alloc_pages` gave the buffers blocks that do not overlap. -/
def BlocksApart (c : WzConsts) (d : Driver) : Prop :=
  ∀ i j p q block block', i < c.nofbufs → j < c.nofbufs → i ≠ j →
    d.ext.bufPage i = some p → d.kern.pages p = some block →
    d.ext.bufPage j = some q → d.kern.pages q = some block' →
    block.pfn + c.buflen / pageSize ≤ block'.pfn ∨ block'.pfn + c.buflen / pageSize ≤ block.pfn

/-- The split into a buffer number and an offset inside of the buffer. -/
theorem swzMmapFault_eq (c : WzConsts) (d : Driver) (offset : Nat) :
    swzMmapFault c d offset =
      if c.nofbufs < offset / c.buflen then .efault
      else if offset / c.buflen < c.nofbufs then
        d.insertPfn (offset / c.buflen) (offset % c.buflen / pageSize)
      else .insertedStray := by
  have hmod : (offset - offset / c.buflen * c.buflen) >>> pageShift = offset % c.buflen / pageSize := by
    rw [Nat.shiftRight_eq_div_pow, Nat.mul_comm, ← Nat.mod_eq_sub_mul_div]
    rfl
  unfold swzMmapFault insertPfn
  simp only [hmod]
  by_cases hgt : c.nofbufs < offset / c.buflen
  · rw [if_pos hgt, if_pos hgt]
  · rw [if_neg hgt, if_neg hgt]
    by_cases hlt : offset / c.buflen < c.nofbufs
    · rw [if_pos hlt]
      exact (if_pos hlt).symm
    · simp only [if_neg hlt, Option.bind_none]

theorem faultsAsConcat_iff (c : RingConsts) (d : Driver) (offset : Nat) :
    FaultsAsConcat c.toWzConsts d offset ↔
      offset < c.nofbufs * c.buflen ∨ (c.nofbufs + 1) * c.buflen ≤ offset := by
  have hpos := c.buflen_pos
  have hin : offset < c.nofbufs * c.buflen ↔ offset / c.buflen < c.nofbufs :=
    (Nat.div_lt_iff_lt_mul hpos).symm
  have hout : (c.nofbufs + 1) * c.buflen ≤ offset ↔ c.nofbufs < offset / c.buflen :=
    (Nat.le_div_iff_mul_le hpos).symm
  rw [hin, hout, FaultsAsConcat, swzMmapFault_eq]
  by_cases hlt : offset / c.buflen < c.nofbufs
  · rw [if_pos (hin.mpr hlt), if_pos hlt, if_neg (by omega)]
    exact ⟨fun _ => .inl hlt, fun _ => rfl⟩
  · rw [if_neg (mt hin.mp hlt), if_neg hlt]
    by_cases hgt : c.nofbufs < offset / c.buflen
    · rw [if_pos hgt]
      exact ⟨fun _ => .inr hgt, fun _ => rfl⟩
    · rw [if_neg hgt]
      exact ⟨fun h => (by cases h), fun h => (h.elim hlt hgt).elim⟩

/-- The frame that a fault inserts lies in the block of its buffer. -/
theorem swzMmapFault_inserted {offset p frame : Nat}
    (h : swzMmapFault c.toWzConsts d offset = .inserted p frame) :
    offset / c.buflen < c.nofbufs ∧ d.ext.bufPage (offset / c.buflen) = some p ∧
      ∃ block, d.kern.pages p = some block ∧
        frame = block.pfn + offset % c.buflen / pageSize := by
  rw [swzMmapFault_eq] at h
  split at h
  · cases h
  · split at h
    · rename_i hlt
      refine ⟨hlt, ?_⟩
      unfold insertPfn at h
      cases hp : d.ext.bufPage (offset / c.buflen) with
      | none => simp [hp] at h
      | some q =>
          cases hblock : d.kern.pages q with
          | none => simp [hp, hblock] at h
          | some block =>
              simp only [hp, hblock, Option.bind_some, Option.map_some, MmapFault.inserted.injEq] at h
              obtain ⟨rfl, rfl⟩ := h
              exact ⟨rfl, block, hblock, rfl⟩
    · cases h

/-- The page inside of a buffer is one of its block. -/
theorem pageOf_lt (c : RingConsts) (offset : Nat) :
    offset % c.buflen / pageSize < c.buflen / pageSize :=
  Nat.div_lt_div_of_lt_of_dvd c.pageSize_dvd_buflen (Nat.mod_lt _ c.buflen_pos)

/-- A page of the mapping is a buffer and a page of it. -/
theorem page_eq (c : RingConsts) {o o' : Nat} (hbuf : o / c.buflen = o' / c.buflen)
    (hpage : o % c.buflen / pageSize = o' % c.buflen / pageSize) : o / pageSize = o' / pageSize := by
  obtain ⟨q, hq⟩ := c.pageSize_dvd_buflen
  have hsplit : ∀ x, x / pageSize = q * (x / c.buflen) + x % c.buflen / pageSize := by
    intro x
    have hpage : 0 < pageSize := Nat.two_pow_pos _
    conv_lhs => rw [← Nat.div_add_mod x c.buflen, hq, Nat.mul_assoc]
    rw [Nat.mul_add_div hpage, ← hq]
  rw [hsplit o, hsplit o', hbuf, hpage]

end Driver

/-- A fault is answered as on the concatenation of the buffers unless it is in the one buffer length
behind the last of them.  Where it is, different pages get different frames. -/
theorem mmap_concatenates_iff (c : RingConsts) (d : Driver) :
    (∀ offset, Driver.FaultsAsConcat c.toWzConsts d offset ↔
      offset < c.nofbufs * c.buflen ∨ (c.nofbufs + 1) * c.buflen ≤ offset) ∧
    (Driver.BlocksApart c.toWzConsts d → ∀ o o' p p' frame, o / pageSize ≠ o' / pageSize →
      Driver.swzMmapFault c.toWzConsts d o = .inserted p frame →
      Driver.swzMmapFault c.toWzConsts d o' ≠ .inserted p' frame) := by
  refine ⟨Driver.faultsAsConcat_iff c d, fun hapart o o' p p' frame hne h h' => ?_⟩
  obtain ⟨hlt, hp, block, hblock, hframe⟩ := Driver.swzMmapFault_inserted h
  obtain ⟨hlt', hp', block', hblock', hframe'⟩ := Driver.swzMmapFault_inserted h'
  have hin := Driver.pageOf_lt c o
  have hin' := Driver.pageOf_lt c o'
  by_cases hbuf : o / c.buflen = o' / c.buflen
  · -- one buffer, so one block, and the pages of it differ
    rw [← hbuf, hp, Option.some.injEq] at hp'
    subst hp'
    rw [hblock, Option.some.injEq] at hblock'
    subst hblock'
    exact hne (Driver.page_eq c hbuf (by omega))
  · have hblocks := hapart _ _ p p' block block' hlt hlt' hbuf hp hblock hp' hblock'
    generalize o % c.buflen / pageSize = k at hin hframe
    generalize o' % c.buflen / pageSize = k' at hin' hframe'
    omega

/-- Two buffers of one page, at different frames. -/
theorem mmap_concatenates_iff_two :
    ∃ s : Sys, s.Reachable twoBuffers.toWzConsts ∧
      Driver.swzMmapFault twoBuffers.toWzConsts s.drv 0 = .inserted 0 1024 ∧
      Driver.swzMmapFault twoBuffers.toWzConsts s.drv 4096 ≠ .inserted 1 1024 := by
  obtain ⟨s, hs, hp⟩ := Lib.Machine.exists_reach_of_execOk (Sys.step twoBuffers.toWzConsts)
    (fun _ _ => True) .created [.allocBuffers allocGranted]
    (fun s => decide (Driver.swzMmapFault twoBuffers.toWzConsts s.drv 0 = .inserted 0 1024 ∧
      (s.drv.ext.bufPage 0).bind s.drv.kern.pages = some ⟨1024, some (allocGranted.maps 0)⟩ ∧
      (s.drv.ext.bufPage 1).bind s.drv.kern.pages = some ⟨2048, some (allocGranted.maps 1)⟩))
    (by decide +kernel)
  obtain ⟨hfirst, h0, h1⟩ := of_decide_eq_true hp
  refine ⟨s, hs, hfirst, (mmap_concatenates_iff twoBuffers s.drv).2 ?_ 0 4096 0 1 1024 (by decide) hfirst⟩
  intro i j p q block block' hi hj hij hpi hbi hpj hbj
  have hi' : (s.drv.ext.bufPage i).bind s.drv.kern.pages = some block := by rw [hpi]; exact hbi
  have hj' : (s.drv.ext.bufPage j).bind s.drv.kern.pages = some block' := by rw [hpj]; exact hbj
  have hcases : (i = 0 ∧ j = 1) ∨ (i = 1 ∧ j = 0) := by
    have hi2 : i < 2 := hi
    have hj2 : j < 2 := hj
    omega
  rcases hcases with ⟨rfl, rfl⟩ | ⟨rfl, rfl⟩
  · rw [h0, Option.some.injEq] at hi'
    rw [h1, Option.some.injEq] at hj'
    subst hi' hj'
    exact .inl (by decide)
  · rw [h1, Option.some.injEq] at hi'
    rw [h0, Option.some.injEq] at hj'
    subst hi' hj'
    exact .inr (by decide)

/-- Behind the last of 128 buffers a frame is inserted that belongs to no buffer. -/
theorem mmap_stray_behind_last :
    ∃ s : Sys, s.Reachable wzConsts.toWzConsts ∧ s.drv.charSgdmaWzMmap = 0 ∧
      Driver.swzMmapFault wzConsts.toWzConsts s.drv (128 * (4 * 1024 * 1024)) = .insertedStray ∧
      ¬Driver.FaultsAsConcat wzConsts.toWzConsts s.drv (128 * (4 * 1024 * 1024)) := by
  obtain ⟨s, hs, hp⟩ := Lib.Machine.exists_reach_of_execOk (Sys.step wzConsts.toWzConsts)
    (fun _ _ => True) .created [.allocBuffers allocGranted]
    (fun s => decide (s.drv.charSgdmaWzMmap = 0 ∧
      Driver.swzMmapFault wzConsts.toWzConsts s.drv (128 * (4 * 1024 * 1024)) = .insertedStray))
    (by decide +kernel)
  obtain ⟨hmmap, hstray⟩ := of_decide_eq_true hp
  refine ⟨s, hs, hmmap, hstray, fun h => ?_⟩
  unfold Driver.FaultsAsConcat at h
  rw [if_neg (by decide), hstray] at h
  cases h

end WzXdma
