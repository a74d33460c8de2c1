import WzXdma.StartFailed
import WzXdma.Views

/-!
# The request of `PERF_START`

`ioctl_do_perf_start` stores the request in `xdma_perf` before it looks at it, and looks at the
version only.  `xdma_performance_submit` gets the size as it is: it divides a buffer of at most
4 MiB into descriptors of that size, and stops the machine if one of them is larger.
-/

namespace WzXdma

open Lib Lib.Runs

/-- The zeroed memory of the request after `copy_from_user` has got `n` bytes into it. -/
def PerfIoctl.copyFromUser (user : PerfIoctl) (n : Nat) : PerfIoctl where
  version := (user.version.setWidth (8 * n)).setWidth 32
  transferSize := (user.transferSize.setWidth (8 * (n - 4))).setWidth 32

/-- `pci_alloc_consistent` answers `buffer`.  The answer is not checked: a refusal leaves
`buffer_bus` as it was. -/
def PerfEnv.allocated (env : PerfEnv) (buffer : Option DmaAddr) : PerfEnv :=
  { env with bufferBus := buffer.getD env.bufferBus }

/-- No other memory is refused. -/
def PerfEnv.granted (env : PerfEnv) (mem : Kernel.CoherentMem) : PerfEnv :=
  { env with transfer := true, coherent := some mem }

/-- `size` and `num_desc_in_a_loop` of `xdma_performance_submit`, in words: `none` is the
`BUG_ON`.  `max_consistent_size` is unsigned, and so is every comparison with it. -/
def perfLoop (sizeInDesc : Word) : Option (Word × Word) :=
  let maxSize : Word := BitVec.ofNat 32 maxConsistentSize
  let size := sizeInDesc * 128
  if maxSize < sizeInDesc then none
  else if maxSize < size then some (maxSize, maxSize.sdiv sizeInDesc)
  else some (size, 128)

/-- The host side of a range lies in a buffer of `size` bytes. -/
def InBuffer (buffer : Option DmaAddr) (size : Nat) (range : Seg (DmaAddr × DmaAddr)) : Prop :=
  range.len = 0 ∨ ∃ bus, buffer = some bus ∧ (range.start.1 - bus).toNat + range.len ≤ size

/-- The transfer has at least one descriptor, and the descriptors of its array stay in the buffer. -/
structure RingInside (buffer : Option DmaAddr) (sizeInDesc : Word) (transfer : XdmaTransfer)
    (descs : List XdmaDesc) : Prop where
  nonempty : 0 < transfer.descNum
  length : descs.length = transfer.descNum
  inside : ∃ size num, perfLoop sizeInDesc = some (size, num) ∧ transfer.descNum = num.toNat ∧
    ∀ desc ∈ descs, InBuffer buffer size.toNat (desc.moves transfer.dirToDev)

namespace Driver

/-- What `PERF_START` owes to a request.  A `BUG_ON` is caused by the request if it is there with
all memory for the ring granted. -/
structure PerfStartSafe (env : PerfEnv) (buffer : Option DmaAddr) (request : PerfIoctl)
    (d : Driver) : Prop where
  noBug : ∀ mem, ioctlDoPerfStart ((env.allocated buffer).granted mem) request d ≠ .error .bugOn
  restored : ∀ d' rc, ioctlDoPerfStart (env.allocated buffer) request d = .ok (d', rc) → rc ≠ 0 →
    d'.engine.xdmaPerf = d.engine.xdmaPerf
  ring : ∀ d', ioctlDoPerfStart (env.allocated buffer) request d = .ok (d', 0) →
    ∃ k t transfer block,
      d.perfPrepare (env.allocated buffer) request.transferSize.toNat = .ok (k, t) ∧
      d'.kern.transfers t = some transfer ∧ d'.kern.coherent transfer.descVirt = some block ∧
      RingInside buffer request.transferSize transfer block.descs

end Driver

/-! ## The numbers -/

/-- The comparison of the source is that of the model, also for a size that is negative as an
`int`. -/
theorem perfLoop_eq_none_iff (sizeInDesc : Word) :
    perfLoop sizeInDesc = none ↔ maxConsistentSize < sizeInDesc.toNat := by
  have hlt : BitVec.ofNat 32 maxConsistentSize < sizeInDesc ↔ maxConsistentSize < sizeInDesc.toNat :=
    Iff.rfl
  unfold perfLoop
  dsimp only
  split
  · exact iff_of_true rfl (hlt.mp ‹_›)
  · refine iff_of_false ?_ fun h => ‹¬_› (hlt.mpr h)
    split
    · exact Option.some_ne_none _
    · exact Option.some_ne_none _

/-- Nothing overflows below the limit. -/
theorem perfLoop_of_le {sizeInDesc : Word} (h : sizeInDesc.toNat ≤ maxConsistentSize) :
    ∃ size num, perfLoop sizeInDesc = some (size, num) ∧
      size.toNat = min (sizeInDesc.toNat * 128) maxConsistentSize ∧
      num.toNat = if maxConsistentSize < sizeInDesc.toNat * 128 then
        maxConsistentSize / sizeInDesc.toNat else 128 := by
  have hmax : maxConsistentSize = 4194304 := rfl
  have hsize : (sizeInDesc * 128).toNat = sizeInDesc.toNat * 128 := by
    have hfit : sizeInDesc.toNat * 128 < 2 ^ 32 := by omega
    exact (BitVec.toNat_mul ..).trans (Nat.mod_eq_of_lt hfit)
  have hfit : ¬BitVec.ofNat 32 maxConsistentSize < sizeInDesc := Nat.not_lt.mpr h
  unfold perfLoop
  dsimp only
  rw [if_neg hfit]
  split
  · rename_i hclamp
    have hlt : maxConsistentSize < sizeInDesc.toNat * 128 := hsize ▸ hclamp
    -- both operands are below `2 ^ 31`, where the signed division is the unsigned one
    have hmsb : sizeInDesc.msb = false := BitVec.msb_eq_false_iff_two_mul_lt.mpr (by omega)
    refine ⟨_, _, rfl, ?_, ?_⟩
    · rw [Nat.min_eq_right (Nat.le_of_lt hlt)]
      rfl
    · rw [if_pos hlt, BitVec.toNat_sdiv, hmsb]
      exact BitVec.toNat_udiv
  · rename_i hclamp
    have hfits : ¬maxConsistentSize < sizeInDesc.toNat * 128 := by
      rw [← hsize]
      exact hclamp
    refine ⟨_, _, rfl, ?_, ?_⟩
    · rw [hsize, Nat.min_eq_left (Nat.not_lt.mp hfits)]
    · rw [if_neg hfits]
      rfl

/-- `num_desc_in_a_loop` for descriptors of `sizeInDesc` bytes -/
theorem perf_num_pos {sizeInDesc : Nat} (h : sizeInDesc ≤ maxConsistentSize) :
    0 < if maxConsistentSize < sizeInDesc * 128 then maxConsistentSize / sizeInDesc else 128 := by
  split
  · exact Nat.div_pos h (by omega)
  · exact Nat.succ_pos 127

/-- The descriptors of the loop fit in the buffer. -/
theorem perf_room {sizeInDesc i : Nat}
    (hi : i < if maxConsistentSize < sizeInDesc * 128 then maxConsistentSize / sizeInDesc else 128) :
    sizeInDesc * i + sizeInDesc ≤ min (sizeInDesc * 128) maxConsistentSize := by
  rw [← Nat.mul_succ]
  split at hi
  · rename_i hclamp
    rw [Nat.min_eq_right (Nat.le_of_lt hclamp)]
    exact Nat.le_trans (Nat.mul_le_mul_left sizeInDesc hi) (Nat.mul_div_le ..)
  · rename_i hclamp
    rw [Nat.min_eq_left (Nat.not_lt.mp hclamp)]
    exact Nat.mul_le_mul_left sizeInDesc hi

/-! ## The ring -/

theorem moves_perfDescs (descs : List XdmaDesc) (bufferBus : DmaAddr) {sizeInDesc : Nat}
    (hsize : sizeInDesc < 2 ^ 32) (dirToDev : Bool) (i : Nat) :
    (Driver.perfDescs descs bufferBus sizeInDesc dirToDev)[i]?.map (·.moves dirToDev) =
      descs[i]?.map fun _ => ⟨(bufferBus + BitVec.ofNat 64 (sizeInDesc * i), 0), sizeInDesc⟩ := by
  rw [Driver.perfDescs, List.getElem?_mapIdx, Option.map_map]
  exact Option.map_congr fun desc _ => moves_xdmaDescSet desc _ _ hsize dirToDev

/-- The ring with descriptors of `sizeInDesc` bytes. -/
structure PerfRing (bufferBus : DmaAddr) (sizeInDesc : Nat) (transfer : XdmaTransfer)
    (descs : List XdmaDesc) : Prop where
  num : transfer.descNum =
    if maxConsistentSize < sizeInDesc * 128 then maxConsistentSize / sizeInDesc else 128
  length : descs.length = transfer.descNum
  moves : ∀ (i : Nat) (desc : XdmaDesc), descs[i]? = some desc →
    desc.moves transfer.dirToDev = ⟨(bufferBus + BitVec.ofNat 64 (sizeInDesc * i), 0), sizeInDesc⟩

namespace Driver

variable {env : PerfEnv} {sizeInDesc : Nat} {d d' : Driver}

/-- The `BUG_ON` of the source. -/
theorem perfPrepare_of_none {sizeInDesc : Word} (h : perfLoop sizeInDesc = none) :
    d.perfPrepare env sizeInDesc.toNat = .error .bugOn := by
  unfold perfPrepare
  exact if_pos ((perfLoop_eq_none_iff sizeInDesc).mp h)

/-- A `BUG_ON` for the lack of memory. -/
theorem perfPrepare_refused (h : env.transfer = false ∨ env.coherent = none) :
    d.perfPrepare env sizeInDesc = .error .bugOn := by
  unfold perfPrepare
  dsimp only
  generalize (if maxConsistentSize < sizeInDesc * 128 then maxConsistentSize / sizeInDesc
    else 128) = n
  split
  · rfl
  · split
    · rfl
    · rename_i htransfer
      rw [h.resolve_left htransfer]
      split
      · rfl
      · rfl

/-- The transfer is the second of the two objects that are made. -/
theorem perfPrepare_granted {mem : Kernel.CoherentMem} (h : sizeInDesc ≤ maxConsistentSize)
    (htransfer : env.transfer = true) (hmem : env.coherent = some mem) :
    ∃ k transfer block, d.perfPrepare env sizeInDesc = .ok (k, d.kern.next + 1) ∧
      k.transfers = Function.update d.kern.transfers (d.kern.next + 1) (some transfer) ∧
      k.coherent transfer.descVirt = some block ∧
      PerfRing env.bufferBus sizeInDesc transfer block.descs := by
  have hpos := perf_num_pos h
  have hsize : sizeInDesc < 2 ^ 32 := Nat.lt_of_le_of_lt h (by decide)
  unfold perfPrepare
  dsimp only
  generalize hn : (if maxConsistentSize < sizeInDesc * 128 then maxConsistentSize / sizeInDesc
    else 128) = n at hpos ⊢
  rw [if_neg (Nat.not_lt.mpr h), if_neg (ne_false_of_eq_true htransfer),
    if_neg (Nat.not_lt.mpr hpos), hmem]
  simp only [Kernel.xdmaDescAlloc, Option.map_some, Kernel.kzallocTransfer, if_true,
    Function.update_self, Function.update_idem]
  refine ⟨_, _, _, rfl, rfl, Function.update_self .., hn.symm, ?_, fun i desc hdesc => ?_⟩
  · dsimp only
    rw [List.length_modify, List.length_modify, perfDescs, List.length_mapIdx,
      length_xdmaDescAllocContent hpos]
  · have hmoves := congrArg (Option.map (·.moves d.engine.dirToDev)) hdesc
    dsimp only at hmoves
    rw [map_modify_keeps (fun x => moves_xdmaDescLink x _ _),
      map_modify_keeps (fun x => moves_xdmaDescControl x _ _), moves_perfDescs _ _ hsize] at hmoves
    obtain ⟨_, -, hsame⟩ := Option.map_eq_some_iff.mp hmoves
    exact hsame.symm

end Driver

/-- The descriptors of the ring stay in the buffer, if there is one. -/
theorem PerfRing.inside {transfer : XdmaTransfer} {descs : List XdmaDesc}
    {bus : DmaAddr} {sizeInDesc : Word} (h : PerfRing bus sizeInDesc.toNat transfer descs)
    (hle : sizeInDesc.toNat ≤ maxConsistentSize) {buffer : Option DmaAddr}
    (hbuffer : buffer = some bus ∨ sizeInDesc = 0) : RingInside buffer sizeInDesc transfer descs := by
  obtain ⟨size, num, hloop, hsize, hnum⟩ := perfLoop_of_le hle
  refine ⟨h.num ▸ perf_num_pos hle, h.length, size, num, hloop, h.num.trans hnum.symm, fun desc hdesc => ?_⟩
  obtain ⟨i, hi, hget⟩ := List.getElem_of_mem hdesc
  rw [h.moves i desc (hget ▸ List.getElem?_eq_getElem hi)]
  rcases hbuffer with hbuffer | hzero
  · rw [h.length, h.num] at hi
    have hroom := perf_room hi
    have hmax : maxConsistentSize = 4194304 := rfl
    refine .inr ⟨bus, hbuffer, ?_⟩
    have hoff : (bus + BitVec.ofNat 64 (sizeInDesc.toNat * i) - bus).toNat = sizeInDesc.toNat * i := by
      rw [BitVec.add_comm, BitVec.add_sub_cancel, BitVec.toNat_ofNat, Nat.mod_eq_of_lt (by omega)]
    rw [hoff, hsize]
    exact hroom
  · exact .inl (by rw [hzero]; rfl)

/-- Without a buffer only empty descriptors are inside. -/
theorem PerfRing.buffer_or_empty {transfer : XdmaTransfer} {descs : List XdmaDesc}
    {bus : DmaAddr} {sizeInDesc : Word} (h : PerfRing bus sizeInDesc.toNat transfer descs)
    {buffer : Option DmaAddr} (hinside : RingInside buffer sizeInDesc transfer descs) :
    buffer ≠ none ∨ sizeInDesc = 0 := by
  obtain ⟨size, num, -, -, hdescs⟩ := hinside.inside
  have hlen : 0 < descs.length := hinside.length ▸ hinside.nonempty
  have hfirst := h.moves 0 _ (List.getElem?_eq_getElem hlen)
  have hin := hdescs _ (List.getElem_mem hlen)
  rw [hfirst] at hin
  rcases hin with hzero | ⟨bus', hbuffer, -⟩
  · exact .inr (BitVec.eq_of_toNat_eq hzero)
  · exact .inl (hbuffer ▸ Option.some_ne_none bus')

/-! ## The exits of `PERF_START` -/

namespace Driver

variable {env : PerfEnv} {request : PerfIoctl} {d : Driver}

theorem perfStart_busy (h : d.engine.xdmaPerf ≠ none) :
    ioctlDoPerfStart env request d = .ok (d, -ebusy) := by
  unfold ioctlDoPerfStart
  exact if_pos (Option.isSome_iff_ne_none.mpr h)

theorem perfStart_noMemory (hidle : d.engine.xdmaPerf = none) (hperf : env.perf = false) :
    ioctlDoPerfStart env request d = .ok (d, -enomem) := by
  unfold ioctlDoPerfStart
  rw [hidle]
  exact if_pos hperf

/-- The request stays in `xdma_perf`. -/
theorem perfStart_version (hidle : d.engine.xdmaPerf = none) (hperf : env.perf = true)
    (hversion : request.version ≠ ioctlXdmaPerfV1) :
    ioctlDoPerfStart env request d =
      .ok ({ d with engine := { d.engine with xdmaPerf := some request } }, -einval) := by
  unfold ioctlDoPerfStart
  rw [hidle, hperf]
  exact if_pos hversion

/-- The state in which `xdma_performance_submit` is called. -/
def measuring (d : Driver) (request : PerfIoctl) : Driver :=
  { d with
    engine := { d.engine with
      xdmaPerf := some request
      regs := { d.engine.regs with perfCtrl := xdmaPerfAuto ||| xdmaPerfRun } } }

theorem perfStart_submit (hidle : d.engine.xdmaPerf = none) (hperf : env.perf = true)
    (hversion : request.version = ioctlXdmaPerfV1) :
    ioctlDoPerfStart env request d =
      (xdmaPerformanceSubmit env request.transferSize.toNat (d.measuring request)).map (·, 0) := by
  unfold ioctlDoPerfStart measuring
  rw [hidle, hperf, hversion]
  simp only [Option.isSome_none, Bool.false_eq_true, if_false, Bool.true_eq_false, ne_eq,
    not_true_eq_false]
  generalize xdmaPerformanceSubmit env request.transferSize.toNat _ = result
  cases result with
  | error e => rfl
  | ok d' => rfl

theorem perfStart_prepare {e : Crash} (hidle : d.engine.xdmaPerf = none) (hperf : env.perf = true)
    (hversion : request.version = ioctlXdmaPerfV1)
    (h : d.perfPrepare env request.transferSize.toNat = .error e) :
    ioctlDoPerfStart env request d = .error e := by
  have hprepare : (d.measuring request).perfPrepare env request.transferSize.toNat = .error e := h
  rw [perfStart_submit hidle hperf hversion, xdmaPerformanceSubmit_eq, hprepare]
  rfl

/-- The ring is queued, unless the transfer in front of it was freed. -/
theorem perfStart_granted {mem : Kernel.CoherentMem} (hidle : d.engine.xdmaPerf = none)
    (hperf : env.perf = true) (hversion : request.version = ioctlXdmaPerfV1)
    (hle : request.transferSize.toNat ≤ maxConsistentSize) (htransfer : env.transfer = true)
    (hmem : env.coherent = some mem) :
    (d.HeadLost (d.kern.next + 1) → ioctlDoPerfStart env request d = .error .useAfterFree) ∧
    (¬d.HeadLost (d.kern.next + 1) → ∃ d', ioctlDoPerfStart env request d = .ok (d', 0) ∧
      ∃ k transfer block,
        d.perfPrepare env request.transferSize.toNat = .ok (k, d.kern.next + 1) ∧
        d'.kern.transfers (d.kern.next + 1) = some transfer ∧
        d'.kern.coherent transfer.descVirt = some block ∧
        PerfRing env.bufferBus request.transferSize.toNat transfer block.descs) := by
  obtain ⟨k, transfer, block, hprepare, htransfers, hblock, hring⟩ :=
    perfPrepare_granted (d := d.measuring request) hle htransfer hmem
  have hfound : k.transfers (d.kern.next + 1) = some transfer := by
    rw [htransfers]
    exact Function.update_self ..
  have hnum : transfer.descNum ≠ 0 := hring.num ▸ Nat.ne_of_gt (perf_num_pos hle)
  have hlost : ({ d.measuring request with kern := k } : Driver).HeadLost (d.kern.next + 1) ↔
      d.HeadLost (d.kern.next + 1) := by
    refine and_congr_right fun _ => and_congr_right fun _ => exists_congr fun y => ?_
    refine and_congr_right fun _ => and_congr_right fun hne => ?_
    show k.transfers y = none ↔ _
    rw [htransfers]
    exact iff_of_eq (congrArg (· = none) (Function.update_of_ne hne ..))
  rw [perfStart_submit hidle hperf hversion, xdmaPerformanceSubmit_eq, hprepare]
  refine ⟨fun hl => ?_, fun hl => ?_⟩
  · have hqueue : transferQueue { d.measuring request with kern := k }
        ((d.measuring request).kern.next + 1) = .error .useAfterFree :=
      transferQueue_lost hfound hnum (hlost.mpr hl)
    simp only [hqueue]
    rfl
  · obtain ⟨d', rc, hqueue⟩ : ∃ d' rc, transferQueue { d.measuring request with kern := k }
        ((d.measuring request).kern.next + 1) = .ok (d', rc) :=
      transferQueue_found hfound hnum fun hl' => hl (hlost.mp hl')
    simp only [hqueue]
    refine ⟨d', rfl, k, ?_⟩
    obtain ⟨tr, htr, rfl | ⟨e, -, -, -, rfl⟩⟩ := transferQueue_ok hqueue
    · exact ⟨transfer, block, hprepare, hfound, hblock, hring⟩
    · obtain rfl : transfer = tr := Option.some.inj (hfound.symm.trans htr)
      exact ⟨{ transfer with state := .submitted }, block, hprepare, Function.update_self .., hblock,
        ⟨hring.num, hring.length, hring.moves⟩⟩

/-- The exits before the request is stored leave everything as it was. -/
theorem PerfStartSafe.of_early {buffer : Option DmaAddr}
    (h : d.engine.xdmaPerf ≠ none ∨ env.perf = false) : PerfStartSafe env buffer request d := by
  obtain ⟨rc, hrc, hcall⟩ : ∃ rc : Int, rc ≠ 0 ∧ ∀ env' : PerfEnv, env'.perf = env.perf →
      ioctlDoPerfStart env' request d = .ok (d, rc) := by
    by_cases hidle : d.engine.xdmaPerf = none
    · have hperf := h.resolve_left (not_not.mpr hidle)
      exact ⟨-enomem, by decide, fun env' henv => perfStart_noMemory hidle (henv.trans hperf)⟩
    · exact ⟨-ebusy, by decide, fun env' _ => perfStart_busy hidle⟩
  refine ⟨fun mem hbug => ?_, fun d' rc' hok _ => ?_, fun d' hok => ?_⟩
  · rw [hcall ((env.allocated buffer).granted mem) rfl] at hbug
    cases hbug
  · rw [hcall (env.allocated buffer) rfl, Except.ok.injEq, Prod.mk.injEq] at hok
    rw [hok.1]
  · rw [hcall (env.allocated buffer) rfl, Except.ok.injEq, Prod.mk.injEq] at hok
    exact absurd hok.2 hrc

/-- A supported request that fits is safe if there is a buffer for its bytes. -/
theorem PerfStartSafe.of_fits {buffer : Option DmaAddr} (hidle : d.engine.xdmaPerf = none)
    (hperf : env.perf = true) (hversion : request.version = ioctlXdmaPerfV1)
    (hle : request.transferSize.toNat ≤ maxConsistentSize)
    (hbuffer : buffer ≠ none ∨ request.transferSize = 0 ∨ env.transfer = false ∨
      env.coherent = none ∨ d.HeadLost (d.kern.next + 1)) : PerfStartSafe env buffer request d := by
  refine ⟨fun mem => ?_, fun d' rc hok hrc => ?_, fun d' hok => ?_⟩
  · have hgranted : ((env.allocated buffer).granted mem).perf = true := hperf
    obtain ⟨hlost, hfound⟩ := perfStart_granted hidle hgranted hversion hle rfl rfl
    by_cases hl : d.HeadLost (d.kern.next + 1)
    · rw [hlost hl]
      simp
    · obtain ⟨d', hok, -⟩ := hfound hl
      rw [hok]
      simp
  · have hallocated : (env.allocated buffer).perf = true := hperf
    rw [perfStart_submit hidle hallocated hversion] at hok
    cases hs : xdmaPerformanceSubmit (env.allocated buffer) request.transferSize.toNat
        (d.measuring request) with
    | error e =>
        rw [hs] at hok
        cases hok
    | ok d₁ =>
        rw [hs] at hok
        exact absurd (Prod.mk.inj (Except.ok.inj hok)).2.symm hrc
  · have hallocated : (env.allocated buffer).perf = true := hperf
    by_cases hrefused : env.transfer = false ∨ env.coherent = none
    · rw [perfStart_prepare hidle hallocated hversion (perfPrepare_refused hrefused)] at hok
      cases hok
    · obtain ⟨htransfer, hcoherent⟩ := not_or.mp hrefused
      obtain ⟨mem, hmem⟩ := Option.ne_none_iff_exists'.mp hcoherent
      obtain ⟨hlost, hfound⟩ := perfStart_granted hidle hallocated hversion hle
        (Bool.eq_true_of_not_eq_false htransfer) hmem
      by_cases hl : d.HeadLost (d.kern.next + 1)
      · rw [hlost hl] at hok
        cases hok
      · obtain ⟨d₁, hok₁, k, transfer, block, hprepare, htr, hblock, hring⟩ := hfound hl
        obtain rfl : d₁ = d' := (Prod.mk.inj (Except.ok.inj (hok₁.symm.trans hok))).1
        refine ⟨k, _, transfer, block, hprepare, htr, hblock, hring.inside hle ?_⟩
        rcases hbuffer with hsome | hzero | hno | hno | hno
        · obtain ⟨bus, rfl⟩ := Option.ne_none_iff_exists'.mp hsome
          exact .inl rfl
        · exact .inr hzero
        · exact absurd hno htransfer
        · exact absurd hno hcoherent
        · exact absurd hno hl

/-- A safe request that gets to the version check is supported and fits. -/
theorem PerfStartSafe.fits {buffer : Option DmaAddr} (h : PerfStartSafe env buffer request d)
    (hidle : d.engine.xdmaPerf = none) (hperf : env.perf = true) :
    request.version = ioctlXdmaPerfV1 ∧ request.transferSize.toNat ≤ maxConsistentSize := by
  have hversion : request.version = ioctlXdmaPerfV1 := by
    by_contra hne
    have hallocated : (env.allocated buffer).perf = true := hperf
    have hperf' := h.restored _ _ (perfStart_version hidle hallocated hne) (by decide)
    exact Option.some_ne_none request (hperf'.trans hidle)
  refine ⟨hversion, Nat.not_lt.mp fun hlt => ?_⟩
  have hgranted : ((env.allocated buffer).granted ⟨0, fun _ => .zero⟩).perf = true := hperf
  exact h.noBug _ (perfStart_prepare hidle hgranted hversion
    (perfPrepare_of_none ((perfLoop_eq_none_iff _).mpr hlt)))

/-- `PERF_START` treats a request well if and only if it gets nowhere near it, or the request is
supported, fits, and has a buffer for its bytes in case the engine gets to see it. -/
theorem perf_start_safe_iff (env : PerfEnv) (buffer : Option DmaAddr) (user : PerfIoctl) (n : Nat)
    (d : Driver) :
    PerfStartSafe env buffer (user.copyFromUser n) d ↔
      d.engine.xdmaPerf ≠ none ∨ env.perf = false ∨
        (user.copyFromUser n).version = ioctlXdmaPerfV1 ∧
          (user.copyFromUser n).transferSize.toNat ≤ maxConsistentSize ∧
          (buffer ≠ none ∨ (user.copyFromUser n).transferSize = 0 ∨ env.transfer = false ∨
            env.coherent = none ∨ d.HeadLost (d.kern.next + 1)) := by
  generalize user.copyFromUser n = request
  by_cases hearly : d.engine.xdmaPerf ≠ none ∨ env.perf = false
  · exact iff_of_true (.of_early hearly) (hearly.elim .inl fun hperf => .inr (.inl hperf))
  obtain ⟨hidle, hperf⟩ := not_or.mp hearly
  rw [not_not] at hidle
  rw [Bool.not_eq_false] at hperf
  constructor
  · intro h
    obtain ⟨hversion, hle⟩ := h.fits hidle hperf
    refine .inr (.inr ⟨hversion, hle, ?_⟩)
    by_contra hno
    simp only [not_or] at hno
    obtain ⟨hbuffer, hsize, htransfer, hcoherent, hlost⟩ := hno
    obtain ⟨mem, hmem⟩ := Option.ne_none_iff_exists'.mp hcoherent
    have hallocated : (env.allocated buffer).perf = true := hperf
    obtain ⟨-, hfound⟩ := perfStart_granted hidle hallocated hversion hle
      (Bool.eq_true_of_not_eq_false htransfer) hmem
    obtain ⟨d', hok, k, transfer, block, hprepare, htr, hblock, hring⟩ := hfound hlost
    -- the ring that is safe is the one that was built
    obtain ⟨k', t', transfer', block', hprepare', htr', hblock', hinside⟩ := h.ring d' hok
    obtain ⟨rfl, rfl⟩ := Prod.mk.inj (Except.ok.inj (hprepare.symm.trans hprepare'))
    obtain rfl : transfer = transfer' := Option.some.inj (htr.symm.trans htr')
    obtain rfl : block = block' := Option.some.inj (hblock.symm.trans hblock')
    exact (hring.buffer_or_empty hinside).elim hbuffer hsize
  · rintro (hbusy | hrefused | ⟨hversion, hle, hbuffer⟩)
    · exact absurd hidle hbusy
    · exact absurd (hrefused.symm.trans hperf) Bool.false_ne_true
    · exact .of_fits hidle hperf hversion hle hbuffer

/-- A version that is not supported is left in `xdma_perf`, and one byte more than 4 MiB stops the
machine, on a driver without a measurement and with all memory granted. -/
theorem perf_start_unsafe :
    ¬PerfStartSafe perfGranted (some 0x10000000) (PerfIoctl.copyFromUser ⟨2, 0x1000⟩ 40) .created ∧
      ¬PerfStartSafe perfGranted (some 0x10000000) (PerfIoctl.copyFromUser ⟨1, 0x400001⟩ 40)
        .created := by
  refine ⟨fun h => ?_, fun h => ?_⟩
  · exact absurd (h.fits rfl rfl).1 (by decide)
  · exact absurd (h.fits rfl rfl).2 (by decide)

end Driver

end WzXdma
