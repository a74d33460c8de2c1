import WzXdma.Lib.Fields
import WzXdma.Polled
import WzXdma.Views

/-!
# Prefetching along a chain

The device does not fetch the descriptors of a chain one by one.  The control word of a descriptor
says how many descriptors follow the next one in memory, and these are fetched together with it.
Such a fetch must not leave the transfer, nor the page of 4 KiB it starts in.

Three passes write the control words: the allocation, the termination of the last descriptor, and
`xdma_desc_adjacent` for each of them.
-/

namespace WzXdma

open Lib Lib.Fields

/-! ## The fields of a control word -/

namespace XdmaDesc

/-- The number of descriptors that are fetched with the next one. -/
def extraAdj (d : XdmaDesc) : Nat := ((d.control >>> 8) &&& 0xFF).toNat

/-- STOPPED, COMPLETED, EOP and their neighbours -/
def flags (d : XdmaDesc) : Word := d.control &&& 0xFF

theorem addrOf_toNat (hi lo : Word) : (addrOf hi lo).toNat = hi.toNat * 2 ^ 32 + lo.toNat := by
  have hhi : (hi.setWidth 64).toNat = hi.toNat := BitVec.toNat_setWidth_of_le (by decide)
  have hlo : (lo.setWidth 64).toNat = lo.toNat := BitVec.toNat_setWidth_of_le (by decide)
  have hhi_lt := hi.isLt
  have hlo_lt := lo.isLt
  rw [addrOf, shiftLeft_or_toNat _ _ (by rw [hhi]; omega) (by rw [hlo]; omega), hhi, hlo]

/-- The offset in its page of the next descriptor. -/
theorem nextLo_toNat (d : XdmaDesc) : (d.nextLo &&& 0xFFF).toNat = d.next.toNat % 4096 := by
  have hmask : (d.nextLo &&& 0xFFF).toNat = d.nextLo.toNat % 2 ^ 12 :=
    and_mask_toNat d.nextLo (show 12 ≤ 32 by decide)
  rw [hmask, next, addrOf_toNat]
  omega

end XdmaDesc

/-- The control words that `xdma_desc_alloc` and `xdma_desc_adjacent` write. -/
def adjacentControl (e : Nat) : Word := descMagic ||| (BitVec.ofNat 32 e <<< 8)

theorem adjacentControl_fields {e : Nat} (he : e ≤ maxExtraAdj) :
    adjacentControl e &&& 0x0000f0ff = 0 ∧ adjacentControl e >>> 16 = 0xAD4B ∧
      adjacentControl e &&& 0xFF = 0 ∧ ((adjacentControl e >>> 8) &&& 0xFF).toNat = e := by
  have hall : ∀ e : Fin 16, adjacentControl e &&& 0x0000f0ff = 0 ∧
      adjacentControl e >>> 16 = 0xAD4B ∧ adjacentControl e &&& 0xFF = 0 ∧
      ((adjacentControl e >>> 8) &&& 0xFF).toNat = e := by decide
  exact hall ⟨e, Nat.lt_succ_of_le he⟩

theorem xdmaDescFill_control (junk : Nat → XdmaDesc) (todo i adj : Nat) (bus : DmaAddr)
    {d : XdmaDesc} (hd : d ∈ xdmaDescFill junk todo i adj bus) : d.control &&& 0x0000f0ff = 0 := by
  induction todo generalizing i adj bus with
  | zero =>
      rw [xdmaDescFill, List.mem_singleton] at hd
      subst hd
      exact (adjacentControl_fields (Nat.zero_le _)).1
  | succ todo ih =>
      rw [xdmaDescFill, List.mem_cons] at hd
      rcases hd with rfl | hd
      · refine (adjacentControl_fields ?_).1
        split
        · exact Nat.min_le_right ..
        · exact Nat.zero_le _
      · exact ih _ _ _ hd

/-! ## What `xdma_desc_adjacent` writes -/

/-- `extra_adj` at the end of `xdma_desc_adjacent` -/
def extraOf (desc : XdmaDesc) (nextAdjacent : Nat) : Nat :=
  if 0 < nextAdjacent then
    min (min (nextAdjacent - 1) maxExtraAdj)
      (((0x1000 - (desc.nextLo &&& 0xFFF).toNat) / 32 + 2 ^ 32 - 1) % 2 ^ 32)
  else 0

theorem extraOf_le (desc : XdmaDesc) (nextAdjacent : Nat) : extraOf desc nextAdjacent ≤ maxExtraAdj := by
  unfold extraOf
  split
  · exact (Nat.min_le_left ..).trans (Nat.min_le_right ..)
  · exact Nat.zero_le _

theorem control_xdmaDescAdjacent {desc : XdmaDesc} (h : desc.control &&& 0x0000f0ff = 0)
    (nextAdjacent : Nat) :
    (xdmaDescAdjacent desc nextAdjacent).control = adjacentControl (extraOf desc nextAdjacent) := by
  show desc.control &&& 0x0000f0ff ||| descMagic ||| _ = _
  rw [h]
  rfl

/-- The descriptors that are fetched together are in the rest of the transfer and in the rest of
the page. -/
theorem extraOf_bound {desc : XdmaDesc} {nextAdjacent : Nat} (halign : desc.next.toNat % 32 = 0)
    (hpos : 0 < extraOf desc nextAdjacent) :
    extraOf desc nextAdjacent < nextAdjacent ∧
      desc.next.toNat % 4096 + 32 * extraOf desc nextAdjacent + 32 ≤ 4096 := by
  unfold extraOf at hpos ⊢
  rw [XdmaDesc.nextLo_toNat] at hpos ⊢
  generalize desc.next.toNat = next at *
  split at hpos
  · rw [if_pos ‹_›]
    omega
  · omega

/-! ## Fetches that stay inside -/

/-- The descriptor `first` of a transfer and the `e` behind it can be fetched at once. -/
structure Fetchable (k : Kernel) (transfer : XdmaTransfer) (first e : Nat) : Prop where
  le : e ≤ 15
  block : 0 < e → ∃ bus, k.FoundAt bus (transfer.descVirt, first) ∧ ∀ j, j ≤ e →
    first + j < transfer.descNum ∧
    k.FoundAt (bus + BitVec.ofNat 64 (32 * j)) (transfer.descVirt, first + j) ∧
    (bus + BitVec.ofNat 64 (32 * j)).toNat / 4096 = bus.toNat / 4096 ∧
    (bus + BitVec.ofNat 64 (32 * j)).toNat % 4096 + 32 ≤ 4096

/-- The chain of a transfer as the device needs it. -/
structure PrefetchValid (k : Kernel) (transfer : XdmaTransfer) : Prop where
  chain : k.Follows transfer.descBus transfer.places
  only : k.Apart → ∀ places, places.length = transfer.descNum →
    k.Follows transfer.descBus places → places = transfer.places
  ends : k.nextOf (transfer.descVirt, transfer.descNum - 1) = some 0
  goesOn : transfer.descBus.toNat + 32 * transfer.descNum ≤ 2 ^ 64 → ∀ i, i + 1 < transfer.descNum →
    ∃ next, k.nextOf (transfer.descVirt, i) = some next ∧ next ≠ 0
  control : ∀ i, i < transfer.descNum → ∃ desc, k.descOf (transfer.descVirt, i) = some desc ∧
    desc.Accepted ∧
    desc.flags = (if i + 1 = transfer.descNum
      then xdmaDescStopped ||| xdmaDescEop ||| xdmaDescCompleted else 0) ∧
    Fetchable k transfer (i + 1) desc.extraAdj

/-- Descriptors of one array up to the end of a page. -/
theorem toNat_add_of_page {bus : DmaAddr} {j : Nat} (h : bus.toNat % 4096 + 32 * j + 32 ≤ 4096) :
    (bus + BitVec.ofNat 64 (32 * j)).toNat = bus.toNat + 32 * j := by
  have hlt := bus.isLt
  rw [BitVec.toNat_add, BitVec.toNat_ofNat]
  omega

theorem fetchable_of_page {k : Kernel} {transfer : XdmaTransfer} {block : DescBlock} {first e : Nat}
    (hblock : k.coherent transfer.descVirt = some block)
    (hroom : transfer.descNum ≤ block.descs.length) (hle : e ≤ 15)
    (hin : 0 < e → first + e < transfer.descNum ∧
      (block.bus + BitVec.ofNat 64 (32 * first)).toNat % 4096 + 32 * e + 32 ≤ 4096) :
    Fetchable k transfer first e := by
  refine ⟨hle, fun hpos => ?_⟩
  obtain ⟨hnum, hpage⟩ := hin hpos
  refine ⟨block.bus + BitVec.ofNat 64 (32 * first), ⟨block, hblock, show first < _ by omega, rfl⟩,
    fun j hj => ?_⟩
  have hnat := toNat_add_of_page (show (block.bus + BitVec.ofNat 64 (32 * first)).toNat % 4096 +
    32 * j + 32 ≤ 4096 by omega)
  refine ⟨by omega, ⟨block, hblock, show first + j < _ by omega, ?_⟩, ?_, ?_⟩
  · rw [BitVec.add_assoc, ← BitVec.ofNat_add, ← Nat.mul_add]
  · rw [hnat]
    omega
  · rw [hnat]
    omega

/-! ## The descriptors of `transfer_create` -/

/-- What happens to the last descriptor before the adjacent numbers are filled in. -/
def terminate (x : XdmaDesc) : XdmaDesc :=
  xdmaDescControl (xdmaDescLink x none) (xdmaDescStopped ||| xdmaDescEop ||| xdmaDescCompleted)

theorem createDescs_getElem (mode : BuildMode) (sgl : List (Seg DmaAddr)) (epAddr : DmaAddr)
    (descs : List XdmaDesc) {i : Nat} (hi : i < (createDescs mode sgl epAddr descs).2) :
    (createDescs mode sgl epAddr descs).1[i]? =
      ((transferBuild mode sgl epAddr descs).1[i]?.map fun x =>
        xdmaDescAdjacent (if i + 1 = (createDescs mode sgl epAddr descs).2 then terminate x else x)
          ((createDescs mode sgl epAddr descs).2 - i - 1)) := by
  unfold createDescs at hi ⊢
  dsimp only at hi ⊢
  generalize transferBuild mode sgl epAddr descs = built at *
  rw [List.getElem?_mapIdx, List.getElem?_modify]
  cases built.1[i]? with
  | none => rfl
  | some x =>
      simp only [Option.map_some, Functor.map, if_pos hi, Nat.add_right_cancel_iff,
        eq_comm (a := built.2), terminate]

/-- The control words after the addresses are filled in are those of the allocation. -/
theorem transferBuild_control (mode : BuildMode) (sgl : List (Seg DmaAddr)) (epAddr bus : DmaAddr)
    (number : Nat) (junk : Nat → XdmaDesc) {i : Nat} {x : XdmaDesc}
    (hx : (transferBuild mode sgl epAddr (xdmaDescAllocContent number bus junk)).1[i]? = some x) :
    x.control &&& 0x0000f0ff = 0 := by
  have hkeeps := @transferBuildLoop_keeps _ XdmaDesc.control
    (fun d rcBusAddr epAddr len dirToDev => by cases dirToDev <;> rfl) mode sgl 0
    ((sgl.head?.map Seg.start).getD 0) 0 epAddr (xdmaDescAllocContent number bus junk) i
  change (transferBuild mode sgl epAddr _).1[i]?.map XdmaDesc.control = _ at hkeeps
  rw [hx, Option.map_some] at hkeeps
  obtain ⟨d, hd, hcontrol⟩ := Option.map_eq_some_iff.mp hkeeps.symm
  rw [← hcontrol]
  exact xdmaDescFill_control junk _ _ _ _ (List.mem_of_getElem? hd)

theorem control_terminate {x : XdmaDesc} (h : x.control &&& 0x0000f0ff = 0) :
    (xdmaDescAdjacent (terminate x) 0).control = descMagic ||| 0x13 := by
  have hlink : (xdmaDescLink x none).control = descMagic := by
    show x.control &&& 0x0000f0ff ||| descMagic = _
    rw [h]
    rfl
  simp only [xdmaDescAdjacent, terminate, xdmaDescControl, hlink, if_neg (Nat.lt_irrefl 0)]
  decide

namespace Created

variable {env : CreateEnv} {mode : BuildMode} {epAddr : DmaAddr} {sgl : List (Seg DmaAddr)}
  {mem : Kernel.CoherentMem} {k : Kernel} {t : Nat} {transfer : XdmaTransfer}

/-- The array of the transfer. -/
theorem linked (h : Created env mode epAddr sgl mem k t transfer) :
    Linked transfer ⟨transfer.descBus, (createDescs mode sgl epAddr
      (xdmaDescAllocContent sgl.length transfer.descBus mem.junk)).1⟩ :=
  createDescs_linked mode sgl epAddr mem.junk h.num h.cyclic

theorem desc (h : Created env mode epAddr sgl mem k t transfer) {i : Nat}
    (hi : i < transfer.descNum) :
    ∃ x, x.control &&& 0x0000f0ff = 0 ∧ k.descOf (transfer.descVirt, i) =
      some (xdmaDescAdjacent (if i + 1 = transfer.descNum then terminate x else x)
        (transfer.descNum - i - 1)) := by
  have hlen := h.linked.lt_length hi
  have hget := createDescs_getElem mode sgl epAddr
    (xdmaDescAllocContent sgl.length transfer.descBus mem.junk) (h.num ▸ hi)
  rw [List.getElem?_eq_getElem hlen] at hget
  obtain ⟨x, hx, hdesc⟩ := Option.map_eq_some_iff.mp hget.symm
  refine ⟨x, transferBuild_control mode sgl epAddr _ _ _ hx, ?_⟩
  rw [h.num, hdesc]
  simp [Kernel.descOf, h.descs, List.getElem?_eq_getElem hlen]

/-- The descriptor at `desc_virt + i` has an address that is a multiple of its size. -/
theorem aligned (h : Created env mode epAddr sgl mem k t transfer) (halign : mem.bus.toNat % 4096 = 0)
    (i : Nat) : (transfer.descBus + BitVec.ofNat 64 (32 * i)).toNat % 32 = 0 := by
  rw [h.bus, BitVec.toNat_add, BitVec.toNat_ofNat]
  omega

theorem nextOf (h : Created env mode epAddr sgl mem k t transfer) {i : Nat}
    (hi : i + 1 < transfer.descNum) :
    k.nextOf (transfer.descVirt, i) = some (transfer.descBus + BitVec.ofNat 64 (32 * (i + 1))) := by
  have hnext := h.linked.next i hi
  simpa [Kernel.nextOf, Kernel.descOf, h.descs] using hnext

/-- Descriptor `i` and its fetch, when another descriptor follows. -/
theorem control_of_lt (h : Created env mode epAddr sgl mem k t transfer)
    (halign : mem.bus.toNat % 4096 = 0) {i : Nat} (hi : i + 1 < transfer.descNum) :
    ∃ desc, k.descOf (transfer.descVirt, i) = some desc ∧ desc.Accepted ∧ desc.flags = 0 ∧
      Fetchable k transfer (i + 1) desc.extraAdj := by
  obtain ⟨x, hx, hdesc⟩ := h.desc (show i < transfer.descNum by omega)
  rw [if_neg (by omega)] at hdesc
  have hnext : x.next = transfer.descBus + BitVec.ofNat 64 (32 * (i + 1)) := by
    have hnextOf := h.nextOf hi
    rw [Kernel.nextOf, hdesc] at hnextOf
    exact Option.some.inj hnextOf
  have hcontrol := control_xdmaDescAdjacent hx (transfer.descNum - i - 1)
  have hle := extraOf_le x (transfer.descNum - i - 1)
  obtain ⟨-, hmagic, hflags, hextra⟩ := adjacentControl_fields hle
  rw [← hcontrol] at hmagic hflags hextra
  refine ⟨_, hdesc, hmagic, hflags, ?_⟩
  rw [XdmaDesc.extraAdj, hextra]
  refine fetchable_of_page h.descs h.linked.room hle fun hpos => ?_
  obtain ⟨hin, hpage⟩ := extraOf_bound (hnext ▸ h.aligned halign (i + 1)) hpos
  rw [hnext] at hpage
  exact ⟨by omega, hpage⟩

theorem control_of_last (h : Created env mode epAddr sgl mem k t transfer) {i : Nat}
    (hi : i + 1 = transfer.descNum) :
    ∃ desc, k.descOf (transfer.descVirt, i) = some desc ∧ desc.Accepted ∧
      desc.flags = xdmaDescStopped ||| xdmaDescEop ||| xdmaDescCompleted ∧ desc.extraAdj = 0 ∧
      desc.next = 0 := by
  obtain ⟨x, hx, hdesc⟩ := h.desc (show i < transfer.descNum by omega)
  rw [if_pos hi, show transfer.descNum - i - 1 = 0 by omega] at hdesc
  have hcontrol := control_terminate hx
  refine ⟨_, hdesc, ?_, ?_, ?_, show XdmaDesc.addrOf 0 0 = 0 by decide⟩
  · rw [XdmaDesc.Accepted, hcontrol]
    decide
  · rw [XdmaDesc.flags, hcontrol]
    decide
  · rw [XdmaDesc.extraAdj, hcontrol]
    decide

theorem prefetchValid (h : Created env mode epAddr sgl mem k t transfer)
    (halign : mem.bus.toNat % 4096 = 0) : PrefetchValid k transfer := by
  refine ⟨h.linked.follows h.descs,
    fun hapart places hlen => (h.linked.follows_iff h.descs hapart hlen).mp, ?_, ?_, ?_⟩
  · have hpos := h.linked.pos
    obtain ⟨desc, hdesc, -, -, -, hnext⟩ :=
      h.control_of_last (show transfer.descNum - 1 + 1 = transfer.descNum by omega)
    rw [Kernel.nextOf, hdesc, Option.map_some, hnext]
  · intro hin i hi
    refine ⟨_, h.nextOf hi, fun hzero => ?_⟩
    have hnat := congrArg BitVec.toNat hzero
    rw [BitVec.toNat_add, BitVec.toNat_ofNat, Nat.mod_eq_of_lt (a := 32 * (i + 1)) (by omega),
      Nat.mod_eq_of_lt (by omega), show (0 : DmaAddr).toNat = 0 from rfl] at hnat
    omega
  · intro i hi
    by_cases hlast : i + 1 = transfer.descNum
    · obtain ⟨desc, hdesc, hmagic, hflags, hextra, -⟩ := h.control_of_last hlast
      refine ⟨desc, hdesc, hmagic, by rw [if_pos hlast, hflags], ?_⟩
      rw [hextra]
      exact ⟨by decide, fun hpos => absurd hpos (Nat.lt_irrefl 0)⟩
    · rw [if_neg hlast]
      exact h.control_of_lt halign (by omega)

/-- The first fetch of an engine that is started with the transfer. -/
theorem fetchable_first (h : Created env mode epAddr sgl mem k t transfer)
    (halign : mem.bus.toNat % 4096 = 0) {k' : Kernel} (hkeeps : KeepsTransfer t k k') {e : Nat}
    (he : e = if 0 < transfer.descAdjacent then min (transfer.descAdjacent - 1) maxExtraAdj else 0) :
    Fetchable k' transfer 0 e := by
  have hlinks := hkeeps.links transfer h.found
  rw [h.descs, Option.map_some] at hlinks
  obtain ⟨block, hblock, hsame⟩ := Option.map_eq_some_iff.mp hlinks
  have hlinked := h.linked.of_links hsame transfer.state
  have hpos := h.linked.pos
  rw [h.adjacent, if_pos hpos] at he
  have hle : e ≤ 15 := he ▸ Nat.min_le_right ..
  refine fetchable_of_page hblock hlinked.room hle fun _ => ⟨?_, ?_⟩
  · have hmin := Nat.min_le_left (transfer.descNum - 1) maxExtraAdj
    omega
  · have hbus : block.bus = mem.bus := hlinked.bus.trans h.bus
    rw [hbus, Nat.mul_zero, BitVec.add_zero, halign]
    omega

end Created

/-! ## `engine_start` -/

/-- What `engine_start` writes to `first_desc_adjacent`. -/
theorem Driver.engineStart_adjacent {d d' : Driver} {t : Nat} {transfer : XdmaTransfer}
    (hhead : d.engine.transferList.head? = some t) (ht : d.kern.transfers t = some transfer)
    (h : d.engineStart = .ok d') :
    d'.engine.regs.firstDescAdjacent =
      if 0 < transfer.descAdjacent then min (transfer.descAdjacent - 1) maxExtraAdj else 0 := by
  obtain ⟨rest, hlist⟩ := List.head?_eq_some_iff.mp hhead
  unfold engineStart at h
  split at h
  · cases h
  · rw [hlist] at h
    dsimp only at h
    rw [ht] at h
    cases h
    rfl

theorem Polled.engineStart_adjacent {p : Polled} {t : Nat} {transfer : XdmaTransfer} {rc : Int}
    (hhead : p.engine.transferList.head? = some t) (ht : p.kern.transfers t = some transfer)
    (h : p.engineStart.2 = .ok rc) :
    p.engineStart.1.engine.regs.firstDescAdjacent =
      if 0 < transfer.descAdjacent then min (transfer.descAdjacent - 1) maxExtraAdj else 0 := by
  obtain ⟨rest, hlist⟩ := List.head?_eq_some_iff.mp hhead
  unfold engineStart at h ⊢
  split at h
  · cases h
  · rw [if_neg ‹_›, hlist]
    dsimp only
    rw [ht]
    rfl

/-- `transfer_create` makes its descriptors out of some scatterlist.  Whichever it is, with the array
at the start of a page the chain is valid, and so is the first fetch of an engine that is started
with the transfer as long as it lives, with interrupts or polled. -/
theorem transfer_create_prefetch {env : CreateEnv} {mem : Kernel.CoherentMem}
    (hmem : env.coherent = some mem) (halign : mem.bus.toNat % 4096 = 0) (mode : BuildMode)
    (epAddr : DmaAddr) :
    (∀ (k k' : Kernel) (start cnt t : Nat),
      k.transferCreate env start cnt epAddr mode = .ok (k', some t) →
      ∃ sgl transfer, Created env mode epAddr sgl mem k' t transfer) ∧
    ∀ sgl k t transfer, Created env mode epAddr sgl mem k t transfer →
      PrefetchValid k transfer ∧
      (∀ d d' : Driver, KeepsTransfer t k d.kern → d.engine.transferList.head? = some t →
        d.engineStart = .ok d' → Fetchable d.kern transfer 0 d'.engine.regs.firstDescAdjacent) ∧
      ∀ p : Polled, KeepsTransfer t k p.kern → p.engine.transferList.head? = some t →
        p.engineStart.2 = .ok 0 →
        Fetchable p.kern transfer 0 p.engineStart.1.engine.regs.firstDescAdjacent := by
  refine ⟨fun k k' start cnt t hcreate => ?_, fun sgl k t transfer h =>
    ⟨h.prefetchValid halign, fun d d' hkeeps hhead hstart => ?_, fun p hkeeps hhead hstart => ?_⟩⟩
  · obtain ⟨sgl, mem', transfer, hcreated, -⟩ := transferCreate_created hcreate
    obtain rfl : mem' = mem := Option.some.inj (hcreated.coherent.symm.trans hmem)
    exact ⟨sgl, transfer, hcreated⟩
  · obtain ⟨state, ht⟩ := hkeeps.transfer transfer h.found
    have hfirst := Driver.engineStart_adjacent hhead ht hstart
    exact h.fetchable_first halign hkeeps hfirst
  · obtain ⟨state, ht⟩ := hkeeps.transfer transfer h.found
    have hfirst := Polled.engineStart_adjacent hhead ht hstart
    exact h.fetchable_first halign hkeeps hfirst

/-- Pages in descending order, so that no two entries are merged. -/
def descendingPages : CreateEnv where
  transfer := true
  mapper := true
  pages := true
  dma page := 0x100000000 - BitVec.ofNat 64 (4096 * page)
  coherent := some ⟨0x1000, fun _ => .zero⟩

/-- Of 130 descriptors, the one with index 120 has the next page six behind its successor. -/
theorem transfer_create_prefetch_pages :
    ∃ k t transfer, Driver.created.kern.transferCreate descendingPages 0 (130 * 4096) 0
        ⟨true, false, false, true⟩ = .ok (k, some t) ∧ k.transfers t = some transfer ∧
      transfer.descNum = 130 ∧ PrefetchValid k transfer ∧
      (k.descOf (transfer.descVirt, 120)).map XdmaDesc.extraAdj = some 6 := by
  have hrun : ((Driver.created.kern.transferCreate descendingPages 0 (130 * 4096) 0
      ⟨true, false, false, true⟩).toOption.any fun r : Kernel × Option Nat => r.2.any fun t =>
        (r.1.transfers t).any fun transfer => decide (transfer.descNum = 130 ∧
          (r.1.descOf (transfer.descVirt, 120)).map XdmaDesc.extraAdj = some 6)) = true := by
    decide +kernel
  simp only [Option.any_eq_true, toOption_eq_some, decide_eq_true_eq] at hrun
  obtain ⟨⟨k, o⟩, hcreate, t, rfl, transfer, ht, hnum, hextra⟩ := hrun
  obtain ⟨hcreated, hvalid⟩ :=
    @transfer_create_prefetch descendingPages _ rfl (by decide) ⟨true, false, false, true⟩ 0
  obtain ⟨sgl, transfer', hmade⟩ := hcreated _ _ _ _ _ hcreate
  obtain rfl : transfer = transfer' := Option.some.inj (ht.symm.trans hmade.found)
  exact ⟨k, t, transfer, hcreate, ht, hnum, (hvalid _ _ _ _ hmade).1, hextra⟩

end WzXdma
