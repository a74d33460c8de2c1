import WzXdma.Consts

/-!
# User access to the BARs

`bridge_mmap` maps a part of a BAR into user space, `char_ctrl_read` and `char_ctrl_write` access one
word of it at the position of the file.  All of them compute with `unsigned long`.  The size that
is left behind the offset wraps when the offset is behind the end of the BAR, and the position of
the file is not compared with anything.
-/

namespace WzXdma

def eagain : Int := 11
def eproto : Int := 71

/-- A memory resource of the device that `map_single_bar` has mapped.  `last` is what
`pci_resource_end` returns, and `virt` is `lro->bar[idx]`. -/
structure PciBar where
  start : BitVec 64
  last : BitVec 64
  virt : BitVec 64
  start_le : start.toNat ≤ last.toNat
  virt_fits : virt.toNat + min (last.toNat - start.toNat + 1) (2 ^ 31 - 1) ≤ 2 ^ 64

namespace PciBar

/-- `pci_resource_len` -/
def len (bar : PciBar) : Nat := bar.last.toNat - bar.start.toNat + 1

/-- The length that `map_single_bar` maps, at most `INT_MAX`. -/
def mapLen (bar : PciBar) : Nat := min bar.len (2 ^ 31 - 1)

end PciBar

/-! ## `bridge_mmap` -/

structure Vma where
  vmStart : BitVec 64
  vmEnd : BitVec 64
  vmPgoff : BitVec 64

/-- The frames that `io_remap_pfn_range` has put into the mapping. -/
structure Remapped where
  pfn : Nat
  pages : Nat
  deriving DecidableEq, Repr

/-- `vma->vm_pgoff << PAGE_SHIFT` -/
def Vma.off (vma : Vma) : BitVec 64 := vma.vmPgoff <<< pageShift

/-- `vma->vm_end - vma->vm_start` -/
def Vma.vsize (vma : Vma) : BitVec 64 := vma.vmEnd - vma.vmStart

/-- The size that is left of the resource. -/
def PciBar.psize (bar : PciBar) (off : BitVec 64) : BitVec 64 := bar.last - bar.start + 1 - off

/-- `bridge_mmap`.  `remapFails` is the outcome of `io_remap_pfn_range`, which maps whole pages. -/
def bridgeMmap (bar : PciBar) (vma : Vma) (remapFails : Bool) : Int × Option Remapped :=
  let phys := bar.start + vma.off
  if bar.psize vma.off < vma.vsize then (-einval, none)
  else if remapFails then (-eagain, none)
  else (0, some ⟨(phys >>> pageShift).toNat, (vma.vsize.toNat + pageSize - 1) / pageSize⟩)

/-! ## `char_ctrl_read` and `char_ctrl_write` -/

/-- What a call leaves: its result, the file position, and the register it has accessed. -/
structure CtrlAccess where
  rc : Int
  pos : BitVec 64
  reg : Option (BitVec 64)
  deriving DecidableEq, Repr

/-- "only 32-bit aligned and 32-bit multiples" -/
def ctrlAccess (bar : PciBar) (pos : BitVec 64) : CtrlAccess :=
  if pos &&& 3 ≠ 0 then ⟨-eproto, pos, none⟩ else ⟨4, pos + 4, some (bar.virt + pos)⟩

/-- `char_ctrl_read`, with the word it has read.  A failing `copy_to_user` changes nothing here. -/
def charCtrlRead (bar : PciBar) (io : BitVec 64 → Word) (pos : BitVec 64) : CtrlAccess × Option Word :=
  (ctrlAccess bar pos, (ctrlAccess bar pos).reg.map io)

/-- `char_ctrl_write`.  `w` is what `copy_from_user` has left in the variable. -/
def charCtrlWrite (bar : PciBar) (io : BitVec 64 → Word) (w : Word) (pos : BitVec 64) :
    CtrlAccess × (BitVec 64 → Word) :=
  (ctrlAccess bar pos, fun reg => if (ctrlAccess bar pos).reg = some reg then w else io reg)

/-! ## What the user may reach -/

/-- Every page of the mapping is inside the BAR. -/
def MmapInside (bar : PciBar) (r : Int × Option Remapped) : Prop :=
  ∀ m, r.2 = some m → ∀ i, i < m.pages → bar.start.toNat ≤ (m.pfn + i) * pageSize ∧
    (m.pfn + i + 1) * pageSize ≤ bar.start.toNat + bar.len

/-- The word at this register is inside the mapped BAR. -/
def PciBar.Inside (bar : PciBar) (reg : BitVec 64) : Prop :=
  bar.virt.toNat ≤ reg.toNat ∧ reg.toNat + 4 ≤ bar.virt.toNat + bar.mapLen

/-- Only words inside the BAR are accessed, and other positions are refused. -/
def CtrlInside (bar : PciBar) (pos : BitVec 64) (r : CtrlAccess) : Prop :=
  (∀ reg, r.reg = some reg → bar.Inside reg) ∧ (¬bar.Inside (bar.virt + pos) → r.rc < 0)

/-- The mapping is empty or refused, or it begins before the end of the BAR and its whole pages end
there at the latest.  The first page begins before a BAR that is not aligned to pages. -/
def MmapFits (bar : PciBar) (vma : Vma) (remapFails : Bool) : Prop :=
  remapFails = true ∨ vma.vsize = 0 ∨ bar.psize vma.off < vma.vsize ∨
    vma.off.toNat ≤ bar.len ∧ bar.start.toNat % pageSize ≤ vma.off.toNat ∧
      vma.off.toNat - bar.start.toNat % pageSize +
        (vma.vsize.toNat + pageSize - 1) / pageSize * pageSize ≤ bar.len

section Offsets

variable {bar : PciBar} {vma : Vma}

theorem pageSize_eq : pageSize = 4096 := rfl

/-- An offset is a number of pages. -/
theorem off_mod (vma : Vma) : vma.off.toNat % pageSize = 0 := by
  unfold Vma.off
  rw [BitVec.toNat_shiftLeft, Nat.shiftLeft_eq]
  show vma.vmPgoff.toNat * 4096 % 2 ^ 64 % 4096 = 0
  omega

/-- The sizes as numbers. -/
theorem psize_toNat (bar : PciBar) (off : BitVec 64) :
    (bar.psize off).toNat = (2 ^ 64 + bar.len - off.toNat) % 2 ^ 64 := by
  have hlast := bar.last.isLt
  have hoff := off.isLt
  have hle := bar.start_le
  unfold PciBar.psize PciBar.len
  rw [BitVec.toNat_sub, BitVec.toNat_add, BitVec.toNat_sub]
  show (2 ^ 64 - off.toNat + ((2 ^ 64 - bar.start.toNat + bar.last.toNat) % 2 ^ 64 + 1) % 2 ^ 64) %
    2 ^ 64 = _
  omega

/-- A mapping that is accepted and begins inside the BAR is not longer than what is left. -/
theorem vsize_le_of_accepted (hoff : vma.off.toNat ≤ bar.len)
    (hacc : ¬bar.psize vma.off < vma.vsize) : vma.vsize.toNat ≤ bar.len - vma.off.toNat := by
  rw [BitVec.lt_def, psize_toNat] at hacc
  omega

/-- The first frame of a mapping that begins inside the BAR. -/
theorem pfn_inside (hoff : vma.off.toNat < bar.len) :
    ((bar.start + vma.off) >>> pageShift).toNat * pageSize + bar.start.toNat % pageSize =
      bar.start.toNat + vma.off.toNat := by
  have hlast := bar.last.isLt
  have hle := bar.start_le
  have hmod := off_mod vma
  unfold PciBar.len at hoff
  rw [BitVec.toNat_ushiftRight, Nat.shiftRight_eq_div_pow, BitVec.toNat_add]
  rw [pageSize_eq] at hmod ⊢
  show (bar.start.toNat + vma.off.toNat) % 2 ^ 64 / 4096 * 4096 + bar.start.toNat % 4096 = _
  omega

/-- A mapping that begins behind the BAR has its first page outside. -/
theorem pfn_outside (hoff : bar.len < vma.off.toNat) :
    ((bar.start + vma.off) >>> pageShift).toNat * pageSize < bar.start.toNat ∨
      bar.start.toNat + bar.len <
        (((bar.start + vma.off) >>> pageShift).toNat + 1) * pageSize := by
  have hlast := bar.last.isLt
  have hlt := vma.off.isLt
  have hle := bar.start_le
  unfold PciBar.len at hoff ⊢
  rw [BitVec.toNat_ushiftRight, Nat.shiftRight_eq_div_pow, BitVec.toNat_add, pageSize_eq]
  show (bar.start.toNat + vma.off.toNat) % 2 ^ 64 / 4096 * 4096 < _ ∨
    _ < ((bar.start.toNat + vma.off.toNat) % 2 ^ 64 / 4096 + 1) * 4096
  omega

/-- A mapping that begins at the end of the BAR reaches behind it with its first page. -/
theorem pfn_at_end (hoff : bar.len = vma.off.toNat) :
    ((bar.start + vma.off) >>> pageShift).toNat * pageSize < bar.start.toNat ∨
      bar.start.toNat + bar.len <
        (((bar.start + vma.off) >>> pageShift).toNat + 1) * pageSize := by
  have hlast := bar.last.isLt
  have hle := bar.start_le
  unfold PciBar.len at hoff ⊢
  rw [BitVec.toNat_ushiftRight, Nat.shiftRight_eq_div_pow, BitVec.toNat_add, pageSize_eq]
  show (bar.start.toNat + vma.off.toNat) % 2 ^ 64 / 4096 * 4096 < _ ∨
    _ < ((bar.start.toNat + vma.off.toNat) % 2 ^ 64 / 4096 + 1) * 4096
  omega

/-- The number of pages of a mapping that is not empty. -/
theorem pages_pos (hne : vma.vsize ≠ 0) : 0 < (vma.vsize.toNat + pageSize - 1) / pageSize := by
  have hpos : vma.vsize.toNat ≠ 0 := fun h => hne (BitVec.eq_of_toNat_eq h)
  rw [pageSize_eq]
  omega

end Offsets

/-! ## `bridge_mmap` and the BAR -/

section Mapping

variable (bar : PciBar) (vma : Vma)

/-- What a call that succeeds has mapped. -/
theorem bridgeMmap_ok (hacc : ¬bar.psize vma.off < vma.vsize) :
    bridgeMmap bar vma false = (0, some ⟨((bar.start + vma.off) >>> pageShift).toNat,
      (vma.vsize.toNat + pageSize - 1) / pageSize⟩) := by
  simp only [bridgeMmap, hacc, if_false, Bool.false_eq_true]

theorem bridgeMmap_refused (h : bar.psize vma.off < vma.vsize) (remapFails : Bool) :
    bridgeMmap bar vma remapFails = (-einval, none) := by
  simp only [bridgeMmap, h, if_true]

/-- Of pages that follow each other the first and the last decide. -/
theorem mmapInside_some {rc : Int} {m : Remapped} (hpos : 0 < m.pages) :
    MmapInside bar (rc, some m) ↔ bar.start.toNat ≤ m.pfn * pageSize ∧
      (m.pfn + m.pages) * pageSize ≤ bar.start.toNat + bar.len := by
  constructor
  · intro h
    have hfirst := (h m rfl 0 hpos).1
    have hlast := (h m rfl (m.pages - 1) (by omega)).2
    rw [show m.pfn + (m.pages - 1) + 1 = m.pfn + m.pages by omega] at hlast
    exact ⟨hfirst, hlast⟩
  · rintro ⟨hfirst, hlast⟩ m' hm i hi
    obtain rfl : m = m' := Option.some.inj hm
    refine ⟨Nat.le_trans hfirst (Nat.mul_le_mul_right _ (by omega)), ?_⟩
    exact Nat.le_trans (Nat.mul_le_mul_right _ (by omega)) hlast

/-- An accepted mapping of at least one page. -/
theorem mmapInside_accepted (hacc : ¬bar.psize vma.off < vma.vsize) (hne : vma.vsize ≠ 0) :
    MmapInside bar (bridgeMmap bar vma false) ↔
      vma.off.toNat ≤ bar.len ∧ bar.start.toNat % pageSize ≤ vma.off.toNat ∧
        vma.off.toNat - bar.start.toNat % pageSize +
          (vma.vsize.toNat + pageSize - 1) / pageSize * pageSize ≤ bar.len := by
  have hpages := pages_pos hne
  rw [bridgeMmap_ok bar vma hacc, mmapInside_some bar hpages]
  dsimp only
  rw [Nat.add_mul]
  have hone : pageSize ≤ (vma.vsize.toNat + pageSize - 1) / pageSize * pageSize :=
    Nat.le_mul_of_pos_left _ hpages
  rcases Nat.lt_trichotomy vma.off.toNat bar.len with hlt | heq | hgt
  · have hpfn := pfn_inside hlt
    omega
  · have hout := pfn_at_end heq.symm
    rw [Nat.add_mul] at hout
    have hzero := vsize_le_of_accepted (Nat.le_of_eq heq) hacc
    have hvsize : vma.vsize.toNat ≠ 0 := fun h => hne (BitVec.eq_of_toNat_eq h)
    omega
  · have hout := pfn_outside hgt
    rw [Nat.add_mul] at hout
    omega

theorem mmapInside_iff (remapFails : Bool) :
    MmapInside bar (bridgeMmap bar vma remapFails) ↔ MmapFits bar vma remapFails := by
  unfold MmapFits
  by_cases hacc : bar.psize vma.off < vma.vsize
  · rw [bridgeMmap_refused bar vma hacc]
    simp [MmapInside, hacc]
  cases remapFails with
  | true => simp [MmapInside, bridgeMmap, hacc]
  | false =>
    by_cases hne : vma.vsize = 0
    · rw [bridgeMmap_ok bar vma hacc]
      simp [MmapInside, hne, pageSize_eq]
    · rw [mmapInside_accepted bar vma hacc hne]
      simp only [hacc, hne, false_or, Bool.false_eq_true]

/-- For a BAR and a mapping that are aligned to pages, an offset behind the BAR is all that the
check misses. -/
theorem mmapFits_iff_of_aligned (hstart : bar.start.toNat % pageSize = 0)
    (hsize : vma.vsize.toNat % pageSize = 0) (remapFails : Bool) :
    MmapFits bar vma remapFails ↔ remapFails = true ∨ vma.vsize = 0 ∨
      bar.psize vma.off < vma.vsize ∨ vma.off.toNat ≤ bar.len := by
  unfold MmapFits
  by_cases hacc : bar.psize vma.off < vma.vsize
  · simp [hacc]
  have hround : (vma.vsize.toNat + pageSize - 1) / pageSize * pageSize = vma.vsize.toNat := by
    rw [pageSize_eq] at hsize ⊢
    omega
  rw [hstart, hround]
  constructor
  · rintro (h | h | h | h)
    · exact .inl h
    · exact .inr (.inl h)
    · exact absurd h hacc
    · exact .inr (.inr (.inr h.1))
  · rintro (h | h | h | h)
    · exact .inl h
    · exact .inr (.inl h)
    · exact absurd h hacc
    · have hle := vsize_le_of_accepted h hacc
      refine .inr (.inr (.inr ⟨h, Nat.zero_le _, ?_⟩))
      omega

end Mapping

/-! ## `char_ctrl_read`, `char_ctrl_write` and the BAR -/

/-- A word is inside exactly when its position is. -/
theorem PciBar.inside_iff (bar : PciBar) (pos : BitVec 64) :
    bar.Inside (bar.virt + pos) ↔ pos.toNat + 4 ≤ bar.mapLen := by
  have hfits := bar.virt_fits
  have hpos := pos.isLt
  have hvirt := bar.virt.isLt
  unfold PciBar.Inside PciBar.mapLen PciBar.len
  rw [BitVec.toNat_add]
  omega

theorem aligned_iff (pos : BitVec 64) : pos &&& 3 = 0 ↔ pos.toNat % 4 = 0 := by
  have hand : (pos &&& 3).toNat = pos.toNat % 4 := by
    rw [BitVec.toNat_and]
    exact Nat.and_two_pow_sub_one_eq_mod pos.toNat 2
  constructor
  · intro h
    rw [← hand, h]
    rfl
  · intro h
    apply BitVec.eq_of_toNat_eq
    rw [hand, h]
    rfl

theorem ctrlInside_iff (bar : PciBar) (pos : BitVec 64) :
    CtrlInside bar pos (ctrlAccess bar pos) ↔
      pos.toNat % 4 ≠ 0 ∨ pos.toNat + 4 ≤ bar.mapLen := by
  rw [ne_eq, ← aligned_iff, ← PciBar.inside_iff]
  unfold CtrlInside ctrlAccess
  by_cases h : pos &&& 3 = 0
  · simp only [h, ne_eq, not_true, if_false, false_or, Option.some.injEq]
    constructor
    · intro hin
      exact hin.1 _ rfl
    · intro hin
      exact ⟨fun reg hreg => hreg ▸ hin, fun hout => absurd hin hout⟩
  · simp only [h, ne_eq, not_false_eq_true, if_true, true_or, iff_true]
    exact ⟨fun reg hreg => absurd hreg (by simp), fun _ => by decide⟩

/-- The accesses of a user stay inside the BAR exactly when the mapping does not begin behind it, and
the position of an aligned word is before its end. -/
theorem user_access_inside_iff (bar : PciBar) (vma : Vma) (remapFails : Bool)
    (io : BitVec 64 → Word) (w : Word) (pos : BitVec 64) :
    (MmapInside bar (bridgeMmap bar vma remapFails) ↔ MmapFits bar vma remapFails) ∧
      (CtrlInside bar pos (charCtrlRead bar io pos).1 ↔
        pos.toNat % 4 ≠ 0 ∨ pos.toNat + 4 ≤ bar.mapLen) ∧
      (CtrlInside bar pos (charCtrlWrite bar io w pos).1 ↔
        pos.toNat % 4 ≠ 0 ∨ pos.toNat + 4 ≤ bar.mapLen) :=
  ⟨mmapInside_iff bar vma remapFails, ctrlInside_iff bar pos, ctrlInside_iff bar pos⟩

/-- A BAR of 64 KiB. -/
def barExample : PciBar where
  start := 0xf0000000
  last := 0xf000ffff
  virt := 0xffffc90000000000
  start_le := by decide
  virt_fits := by decide

/-- One page, 16 pages behind the end of the BAR.  The file position `0x20000` is there too. -/
theorem user_access_behind_bar :
    let vma : Vma := ⟨0x7f0000000000, 0x7f0000001000, 32⟩
    (bridgeMmap barExample vma false = (0, some ⟨0xf0020, 1⟩) ∧
      ¬MmapInside barExample (bridgeMmap barExample vma false)) ∧
    ((charCtrlRead barExample (fun _ => 0) 0x20000).1 =
        ⟨4, 0x20004, some 0xffffc90000020000⟩ ∧
      ¬CtrlInside barExample 0x20000 (charCtrlRead barExample (fun _ => 0) 0x20000).1) ∧
    ¬CtrlInside barExample 0x20000 (charCtrlWrite barExample (fun _ => 0) 1 0x20000).1 := by
  refine ⟨⟨by decide, ?_⟩, ⟨by decide, ?_⟩, ?_⟩
  · rw [mmapInside_iff]
    unfold MmapFits
    decide
  · show ¬CtrlInside barExample 0x20000 (ctrlAccess barExample 0x20000)
    rw [ctrlInside_iff]
    decide
  · show ¬CtrlInside barExample 0x20000 (ctrlAccess barExample 0x20000)
    rw [ctrlInside_iff]
    decide

end WzXdma
