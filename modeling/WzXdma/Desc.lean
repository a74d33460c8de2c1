import WzXdma.Consts

/-!
# Descriptors

`struct xdma_desc` as eight 32-bit words, the functions of `xdma-core.c` that
build one, and the device's view of it.  The writeback of a completed descriptor
lands on the descriptor itself, and the driver reads it back through
`struct xdma_result`, which overlays the first two words.
-/

namespace WzXdma

/-- `struct xdma_desc`. -/
structure XdmaDesc where
  control : Word
  bytes : Word
  srcAddrLo : Word
  srcAddrHi : Word
  dstAddrLo : Word
  dstAddrHi : Word
  nextLo : Word
  nextHi : Word
  deriving DecidableEq, Repr

/-- `struct xdma_result`, without its padding. -/
structure XdmaResult where
  status : Word
  length : Word
  deriving DecidableEq, Repr

namespace XdmaDesc

/-- The cast `(struct xdma_result *) cur_desc`. -/
def toResult (d : XdmaDesc) : XdmaResult := { status := d.control, length := d.bytes }

/-- The bus address formed by two words. -/
def addrOf (hi lo : Word) : DmaAddr := (hi.setWidth 64 <<< 32) ||| lo.setWidth 64

def src (d : XdmaDesc) : DmaAddr := addrOf d.srcAddrHi d.srcAddrLo
def dst (d : XdmaDesc) : DmaAddr := addrOf d.dstAddrHi d.dstAddrLo
def next (d : XdmaDesc) : DmaAddr := addrOf d.nextHi d.nextLo

/-- The test the device makes on the control word of a descriptor it fetches. -/
def Accepted (d : XdmaDesc) : Prop := d.control >>> 16 = 0xAD4B

instance (d : XdmaDesc) : Decidable d.Accepted := inferInstanceAs (Decidable (_ = _))

end XdmaDesc

/-- `PCI_DMA_H` -/
def pciDmaH (addr : DmaAddr) : Word := ((addr >>> 16) >>> 16).setWidth 32

/-- `PCI_DMA_L` -/
def pciDmaL (addr : DmaAddr) : Word := (addr &&& 0xffffffff).setWidth 32

theorem pciDmaL_eq (addr : DmaAddr) : pciDmaL addr = addr.setWidth 32 := by
  apply BitVec.eq_of_toNat_eq
  have hmask : (0xffffffff : BitVec 64).toNat = 2 ^ 32 - 1 := rfl
  rw [pciDmaL, BitVec.toNat_setWidth, BitVec.toNat_and, hmask, Nat.and_two_pow_sub_one_eq_mod,
    Nat.mod_mod, BitVec.toNat_setWidth]

theorem pciDmaH_eq (addr : DmaAddr) : pciDmaH addr = (addr >>> 32).setWidth 32 := by
  rw [pciDmaH, ← BitVec.shiftRight_add]

/-- The two halves written into a descriptor give the address back. -/
theorem addrOf_pciDma (addr : DmaAddr) : XdmaDesc.addrOf (pciDmaH addr) (pciDmaL addr) = addr := by
  rw [pciDmaL_eq, pciDmaH_eq]
  apply BitVec.eq_of_getLsbD_eq
  intro i hi
  by_cases h : i < 32
  · simp [XdmaDesc.addrOf, h, hi]
  · have hlow : i - 32 < 32 := by omega
    have hsum : 32 + (i - 32) = i := by omega
    simp only [XdmaDesc.addrOf, BitVec.getLsbD_or, BitVec.getLsbD_shiftLeft,
      BitVec.getLsbD_setWidth, BitVec.getLsbD_ushiftRight, hi, h, hlow, hsum]
    simp
    intro
    omega

/-! ## Building descriptors -/

/-- The loop of `xdma_desc_alloc` from descriptor `i` on, with `todo` descriptors
before the last one.  The memory is not cleared by the allocation, so the words
that are not written keep what `junk` holds. -/
def xdmaDescFill (junk : Nat → XdmaDesc) : Nat → Nat → Nat → DmaAddr → List XdmaDesc
  | 0, i, _, _ => [{ junk i with nextLo := 0, nextHi := 0, bytes := 0, control := descMagic }]
  | todo + 1, i, adj, descBus =>
      let next := descBus + 32
      let extraAdj := if 0 < adj then min (adj - 1) maxExtraAdj else 0
      { junk i with
        nextLo := pciDmaL next
        nextHi := pciDmaH next
        bytes := 0
        control := descMagic ||| (BitVec.ofNat 32 extraAdj <<< 8) } ::
        xdmaDescFill junk todo (i + 1) (adj - 1) next

/-- The descriptors `xdma_desc_alloc` leaves in the memory it obtained. -/
def xdmaDescAllocContent (number : Nat) (descBus : DmaAddr) (junk : Nat → XdmaDesc) :
    List XdmaDesc :=
  xdmaDescFill junk (number - 1) 0 (number - 1) descBus

/-- `xdma_desc_link`.  `second` is the bus address of the descriptor to link to. -/
def xdmaDescLink (first : XdmaDesc) (second : Option DmaAddr) : XdmaDesc :=
  let control := first.control &&& 0x0000f0ff
  match second with
  | some secondBus =>
      { first with nextLo := pciDmaL secondBus, nextHi := pciDmaH secondBus,
                   control := control ||| descMagic }
  | none => { first with nextLo := 0, nextHi := 0, control := control ||| descMagic }

/-- `xdma_desc_control`, for the control fields of one byte its callers pass. -/
def xdmaDescControl (first : XdmaDesc) (controlField : Word) : XdmaDesc :=
  { first with control := (first.control &&& ~~~lsByteMask) ||| controlField }

/-- `xdma_desc_set` -/
def xdmaDescSet (desc : XdmaDesc) (rcBusAddr epAddr : DmaAddr) (len : Word) (dirToDev : Bool) :
    XdmaDesc :=
  if dirToDev then
    { desc with bytes := len
                srcAddrLo := pciDmaL rcBusAddr, srcAddrHi := pciDmaH rcBusAddr
                dstAddrLo := pciDmaL epAddr, dstAddrHi := pciDmaH epAddr }
  else
    { desc with bytes := len
                srcAddrLo := pciDmaL epAddr, srcAddrHi := pciDmaH epAddr
                dstAddrLo := pciDmaL rcBusAddr, dstAddrHi := pciDmaH rcBusAddr }

/-! ## The device side -/

namespace XdmaDesc

/-- The writeback of a completed descriptor, stored over the descriptor. -/
def writeback (d : XdmaDesc) (eop : Bool) (length : Word) : XdmaDesc :=
  { d with control := (c2hWb <<< 16) ||| (if eop then 1 else 0), bytes := length }

end XdmaDesc

/-- `((cur_res->status >> 16) & 0xffff) == C2H_WB` -/
def XdmaResult.HasWb (r : XdmaResult) : Prop := (r.status >>> 16) &&& 0xffff = c2hWb

instance (r : XdmaResult) : Decidable r.HasWb := inferInstanceAs (Decidable (_ = _))

/-- `cur_res->status & 1` -/
def XdmaResult.eop (r : XdmaResult) : Bool := r.status &&& 1 != 0

theorem writeback_not_accepted (d : XdmaDesc) (eop : Bool) (length : Word) :
    ¬(d.writeback eop length).Accepted := by
  cases eop <;> simp only [XdmaDesc.Accepted, XdmaDesc.writeback] <;> decide

theorem writeback_hasWb (d : XdmaDesc) (eop : Bool) (length : Word) :
    (d.writeback eop length).toResult.HasWb := by
  cases eop <;> simp only [XdmaResult.HasWb, XdmaDesc.toResult, XdmaDesc.writeback] <;> decide

theorem writeback_eop (d : XdmaDesc) (eop : Bool) (length : Word) :
    (d.writeback eop length).toResult.eop = eop := by
  cases eop <;> simp only [XdmaResult.eop, XdmaDesc.toResult, XdmaDesc.writeback] <;> decide

/-- A descriptor the device would accept carries no writeback. -/
theorem not_hasWb_of_accepted {d : XdmaDesc} (h : d.Accepted) : ¬d.toResult.HasWb := by
  intro hwb
  simp only [XdmaResult.HasWb, XdmaDesc.toResult] at hwb
  rw [show d.control >>> 16 = 0xAD4B from h] at hwb
  revert hwb
  decide

/-! ## Restoring a descriptor word by word -/

/-- The words of a descriptor. -/
inductive DescWord
  | control | bytes | srcAddrLo | srcAddrHi | dstAddrLo | dstAddrHi | nextLo | nextHi
  deriving DecidableEq, Repr

/-- The assignment of one word of `copy` to the same word of `d`. -/
def XdmaDesc.copyWord (d copy : XdmaDesc) : DescWord → XdmaDesc
  | .control => { d with control := copy.control }
  | .bytes => { d with bytes := copy.bytes }
  | .srcAddrLo => { d with srcAddrLo := copy.srcAddrLo }
  | .srcAddrHi => { d with srcAddrHi := copy.srcAddrHi }
  | .dstAddrLo => { d with dstAddrLo := copy.dstAddrLo }
  | .dstAddrHi => { d with dstAddrHi := copy.dstAddrHi }
  | .nextLo => { d with nextLo := copy.nextLo }
  | .nextHi => { d with nextHi := copy.nextHi }

/-- The order of the eight assignments in `ioctl_do_wz_confirm`: the control word
with the magic comes last. -/
def restoreOrder : List DescWord :=
  [.bytes, .srcAddrLo, .srcAddrHi, .dstAddrLo, .dstAddrHi, .nextLo, .nextHi, .control]

/-- Two descriptors agree on the words a writeback does not touch. -/
def XdmaDesc.SameLinks (d e : XdmaDesc) : Prop :=
  d.srcAddrLo = e.srcAddrLo ∧ d.srcAddrHi = e.srcAddrHi ∧ d.dstAddrLo = e.dstAddrLo ∧
    d.dstAddrHi = e.dstAddrHi ∧ d.nextLo = e.nextLo ∧ d.nextHi = e.nextHi

theorem XdmaDesc.eq_of_sameLinks {d e : XdmaDesc} (h : d.SameLinks e) (hc : d.control = e.control)
    (hb : d.bytes = e.bytes) : d = e := by
  obtain ⟨h1, h2, h3, h4, h5, h6⟩ := h
  cases d
  cases e
  simp_all

theorem XdmaDesc.sameLinks_refl (d : XdmaDesc) : d.SameLinks d := ⟨rfl, rfl, rfl, rfl, rfl, rfl⟩

theorem XdmaDesc.sameLinks_writeback {d e : XdmaDesc} (h : d.SameLinks e) (eop : Bool)
    (length : Word) : (d.writeback eop length).SameLinks e := h

theorem XdmaDesc.sameLinks_copyWord {d e : XdmaDesc} (h : d.SameLinks e) (w : DescWord) :
    (d.copyWord e w).SameLinks e := by
  obtain ⟨h1, h2, h3, h4, h5, h6⟩ := h
  cases w <;> simp_all [SameLinks, copyWord]

end WzXdma
