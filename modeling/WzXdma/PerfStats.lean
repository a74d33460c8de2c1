import WzXdma.Bar
import WzXdma.Lib.Fields
import WzXdma.PerfRequest

/-!
# The counters of a measurement

A counter of the device has 64 bits and is read through two registers, the high half first.  The
device goes on counting between the two reads.  Of the high half `build_u64` keeps 28 bits.
-/

namespace WzXdma

open Lib

/-- `build_u64`.  The mask of the high half has seven digits, that of the low half eight. -/
def buildU64 (hi lo : BitVec 64) : BitVec 64 := (hi &&& 0xFFFFFFF) <<< 32 ||| (lo &&& 0xFFFFFFFF)

inductive PerfCounter
  /-- `perf_cyc_hi` and `perf_cyc_lo` -/
  | cyc
  /-- `perf_dat_hi` and `perf_dat_lo` -/
  | dat
  /-- `perf_pnd_hi` and `perf_pnd_lo` -/
  | pnd
  deriving DecidableEq, Repr

/-- The registers that `get_perf_stats` reads, each counter as one number. -/
structure PerfRegs where
  completedDescCount : Word
  counter : PerfCounter → BitVec 64

namespace PerfRegs

def hi (regs : PerfRegs) (c : PerfCounter) : Word := (regs.counter c).extractLsb' 32 32

def lo (regs : PerfRegs) (c : PerfCounter) : Word := (regs.counter c).extractLsb' 0 32

end PerfRegs

/-- The device at the reads of `get_perf_stats`: `hw n` at the one that has `n` reads before it. -/
def PerfReads : Type := Nat → PerfRegs

namespace PerfReads

/-- The two reads of a counter, the first of which has `n` reads before it. -/
def readCounter (hw : PerfReads) (c : PerfCounter) (n : Nat) : BitVec 64 :=
  let hi := (hw n).hi c
  let lo := (hw (n + 1)).lo c
  buildU64 (hi.setWidth 64) (lo.setWidth 64)

/-- The counters only go up, by any amount from one read to the next, and do not overflow. -/
def Counts (hw : PerfReads) : Prop :=
  ∀ n c, ((hw n).counter c).toNat ≤ ((hw (n + 1)).counter c).toNat

end PerfReads

/-- What `get_perf_stats` stores in `xdma_perf`. -/
structure PerfStats where
  iterations : Word
  clockCycleCount : BitVec 64
  dataCycleCount : BitVec 64
  pendingCount : BitVec 64
  deriving DecidableEq, Repr

/-- Where the value of a counter is stored. -/
def PerfStats.count (stats : PerfStats) : PerfCounter → BitVec 64
  | .cyc => stats.clockCycleCount
  | .dat => stats.dataCycleCount
  | .pnd => stats.pendingCount

/-- The number of reads before the first one of a counter. -/
def PerfCounter.firstRead : PerfCounter → Nat
  | .cyc => 1
  | .dat => 3
  | .pnd => 5

namespace Driver

/-- `get_perf_stats` -/
def getPerfStats (hw : PerfReads) (d : Driver) : Except Crash PerfStats :=
  if d.engine.xdmaPerf.isNone then .error .bugOn
  else
    let lo := (hw 0).completedDescCount
    .ok
      { iterations := (buildU64 0 (lo.setWidth 64)).setWidth 32
        clockCycleCount := hw.readCounter .cyc 1
        dataCycleCount := hw.readCounter .dat 3
        pendingCount := hw.readCounter .pnd 5 }

/-- `ioctl_do_perf_get`: the value returned and what is copied to the user.  `copyFails` is the
outcome of `copy_to_user`. -/
def ioctlDoPerfGet (hw : PerfReads) (copyFails : Bool) (d : Driver) :
    Except Crash (Int × Option PerfStats) :=
  if d.engine.xdmaPerf.isSome then
    match d.getPerfStats hw with
    | .error e => .error e
    | .ok stats => if copyFails then .ok (-einval, none) else .ok (0, some stats)
  else .ok (-eproto, none)

end Driver

/-! ## The values -/

theorem buildU64_toNat (hi lo : BitVec 64) :
    (buildU64 hi lo).toNat = hi.toNat % 2 ^ 28 * 2 ^ 32 + lo.toNat % 2 ^ 32 := by
  have hhi : (hi &&& 0xFFFFFFF).toNat = hi.toNat % 2 ^ 28 :=
    @Fields.and_mask_toNat 64 hi 28 (by decide)
  have hlo : (lo &&& 0xFFFFFFFF).toNat = lo.toNat % 2 ^ 32 :=
    @Fields.and_mask_toNat 64 lo 32 (by decide)
  have hhi_lt := Nat.mod_lt hi.toNat (Nat.two_pow_pos 28)
  have hlo_lt := Nat.mod_lt lo.toNat (Nat.two_pow_pos 32)
  rw [buildU64, Fields.shiftLeft_or_toNat _ _ (by omega) (by omega), hhi, hlo]

namespace PerfRegs

theorem hi_toNat (regs : PerfRegs) (c : PerfCounter) :
    (regs.hi c).toNat = (regs.counter c).toNat / 2 ^ 32 := by
  have hlt := (regs.counter c).isLt
  rw [hi, BitVec.extractLsb'_toNat, Nat.shiftRight_eq_div_pow]
  exact Nat.mod_eq_of_lt (Nat.div_lt_of_lt_mul hlt)

theorem lo_toNat (regs : PerfRegs) (c : PerfCounter) :
    (regs.lo c).toNat = (regs.counter c).toNat % 2 ^ 32 := by
  rw [lo, BitVec.extractLsb'_toNat, Nat.shiftRight_zero]

end PerfRegs

namespace PerfReads

theorem readCounter_toNat (hw : PerfReads) (c : PerfCounter) (n : Nat) :
    (hw.readCounter c n).toNat =
      ((hw n).counter c).toNat / 2 ^ 32 % 2 ^ 28 * 2 ^ 32 + ((hw (n + 1)).counter c).toNat % 2 ^ 32 := by
  have hwide : ∀ w : Word, (w.setWidth 64).toNat = w.toNat := fun w =>
    BitVec.toNat_setWidth_of_le (by decide)
  have hlow := Nat.mod_lt ((hw (n + 1)).counter c).toNat (Nat.two_pow_pos 32)
  rw [readCounter, buildU64_toNat, hwide, hwide, PerfRegs.hi_toNat, PerfRegs.lo_toNat,
    Nat.mod_eq_of_lt hlow]

/-- A device whose counters go from `a` to `b` between the reads of the cycle counter. -/
def jump (a b : BitVec 64) : PerfReads := fun n => ⟨0, fun _ => if n ≤ 1 then a else b⟩

theorem jump_counts {a b : BitVec 64} (h : a.toNat ≤ b.toNat) : (jump a b).Counts := by
  intro n c
  show (if n ≤ 1 then a else b).toNat ≤ (if n + 1 ≤ 1 then a else b).toNat
  by_cases hn : n + 1 ≤ 1
  · rw [if_pos hn, if_pos (Nat.le_of_succ_le hn)]
  · rw [if_neg hn]
    split
    · exact h
    · exact Nat.le_refl _

end PerfReads

namespace Driver

variable {d : Driver} {hw : PerfReads} {stats : PerfStats}

theorem getPerfStats_count (h : d.getPerfStats hw = .ok stats) (c : PerfCounter) :
    stats.count c = hw.readCounter c c.firstRead := by
  unfold getPerfStats at h
  split at h
  · cases h
  · cases h
    cases c <;> rfl

/-- Its callers test the pointer first. -/
theorem ioctlDoPerfGet_ok (hw : PerfReads) (copyFails : Bool) (d : Driver) :
    ∃ r, d.ioctlDoPerfGet hw copyFails = .ok r := by
  unfold ioctlDoPerfGet getPerfStats
  cases d.engine.xdmaPerf with
  | none => exact ⟨_, rfl⟩
  | some request => cases copyFails <;> exact ⟨_, rfl⟩

/-- Whatever the device counts in the meantime: a stored count lies between the values of the counter
at its two reads if and only if the counter was below `2 ^ 60` at the first one, and its low half
was not larger then. -/
theorem perf_stats_between_iff (hcounts : hw.Counts) (h : d.getPerfStats hw = .ok stats)
    (c : PerfCounter) :
    ((hw c.firstRead).counter c).toNat ≤ (stats.count c).toNat ∧
        (stats.count c).toNat ≤ ((hw (c.firstRead + 1)).counter c).toNat ↔
      ((hw c.firstRead).counter c).toNat < 2 ^ 60 ∧
        (hw c.firstRead).lo c ≤ (hw (c.firstRead + 1)).lo c := by
  have hle := hcounts c.firstRead c
  rw [getPerfStats_count h, PerfReads.readCounter_toNat, BitVec.le_def, PerfRegs.lo_toNat,
    PerfRegs.lo_toNat, and_iff_left (Fields.halves_le hle _ _),
    Fields.le_halves_iff _ _ (Nat.two_pow_pos 32) (Nat.two_pow_pos 28)]
  exact and_congr_left fun _ => Nat.div_lt_iff_lt_mul (Nat.two_pow_pos 32)

/-- A carry, and a low half that is larger nevertheless. -/
theorem perf_stats_between_carry :
    ∃ stats, (created.measuring perfRequest).getPerfStats (PerfReads.jump 0x1FFFFFFF0 0x2FFFFFFF5) =
        .ok stats ∧
      0x1FFFFFFF0 ≤ stats.clockCycleCount.toNat ∧ stats.clockCycleCount.toNat ≤ 0x2FFFFFFF5 := by
  have hcounts : (PerfReads.jump 0x1FFFFFFF0 0x2FFFFFFF5).Counts :=
    PerfReads.jump_counts (by decide)
  obtain ⟨stats, hstats⟩ : ∃ stats, (created.measuring perfRequest).getPerfStats
      (PerfReads.jump 0x1FFFFFFF0 0x2FFFFFFF5) = .ok stats := ⟨_, rfl⟩
  exact ⟨stats, hstats, (perf_stats_between_iff hcounts hstats .cyc).mpr (by decide)⟩

/-- `build_u64` drops bit 60 of a counter that stands still, and a carry between the two reads is
lost. -/
theorem perf_stats_outside :
    (∃ stats, (PerfReads.jump 0x1000000000000000 0x1000000000000000).Counts ∧
      (created.measuring perfRequest).getPerfStats
        (PerfReads.jump 0x1000000000000000 0x1000000000000000) = .ok stats ∧
      ¬0x1000000000000000 ≤ stats.clockCycleCount.toNat) ∧
    ∃ stats, (PerfReads.jump 0xFFFFFFFF 0x100000000).Counts ∧
      (created.measuring perfRequest).getPerfStats (PerfReads.jump 0xFFFFFFFF 0x100000000) =
        .ok stats ∧
      ¬0xFFFFFFFF ≤ stats.clockCycleCount.toNat :=
  ⟨⟨_, PerfReads.jump_counts (Nat.le_refl _), rfl, by decide⟩,
    ⟨_, PerfReads.jump_counts (by decide), rfl, by decide⟩⟩

end Driver
end WzXdma
