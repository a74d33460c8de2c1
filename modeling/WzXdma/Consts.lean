import Mathlib.Algebra.Group.Nat.Defs
import Mathlib.Data.Nat.Bits

/-!
# Constants of the driver

The values of `wz-xdma-consts.h` are parameters of the model: the number of DMA
buffers and the size of one of them.  Both "MUST BE A POWER OF 2", which
`RingConsts` carries, together with the bounds that the driver's 32-bit block
numbers and lengths and the page size of the machine impose.  `wzConsts` are the
values of the repository.
-/

namespace WzXdma

/-- `dma_addr_t`. -/
abbrev DmaAddr := BitVec 64

/-- A 32-bit word of a descriptor or of a register. -/
abbrev Word := BitVec 32

abbrev Byte := BitVec 8

structure WzConsts where
  /-- `WZ_DMA_NOFBUFS` -/
  nofbufs : Nat
  /-- `WZ_DMA_BUFLEN` -/
  buflen : Nat

def pageShift : Nat := 12

def pageSize : Nat := 2 ^ pageShift

/-- Constants that keep what `wz-xdma-consts.h` asks for.  A `kfifo` has at least
two entries, and a buffer is at least one page. -/
structure RingConsts extends WzConsts where
  nofbufsLog : Nat
  buflenLog : Nat
  nofbufs_eq : nofbufs = 2 ^ nofbufsLog
  nofbufs_log : 1 ≤ nofbufsLog ∧ nofbufsLog ≤ 32
  buflen_eq : buflen = 2 ^ buflenLog
  buflen_log : pageShift ≤ buflenLog ∧ buflenLog ≤ 31

namespace RingConsts

variable (c : RingConsts)

theorem nofbufs_pos : 0 < c.nofbufs := by
  rw [c.nofbufs_eq]
  exact Nat.two_pow_pos _

theorem two_le_nofbufs : 2 ≤ c.nofbufs := by
  rw [c.nofbufs_eq]
  exact Nat.pow_le_pow_right (by omega : 0 < 2) c.nofbufs_log.1

theorem nofbufs_dvd : c.nofbufs ∣ 2 ^ 32 := by
  rw [c.nofbufs_eq]
  exact Nat.pow_dvd_pow 2 (by have := c.nofbufs_log; omega)

theorem nofbufs_le : c.nofbufs ≤ 2 ^ 32 := by
  rw [c.nofbufs_eq]
  exact Nat.pow_le_pow_right (by omega) c.nofbufs_log.2

theorem buflen_pos : 0 < c.buflen := by
  rw [c.buflen_eq]
  exact Nat.two_pow_pos _

theorem buflen_lt : c.buflen < 2 ^ 32 := by
  rw [c.buflen_eq]
  exact Nat.pow_lt_pow_right (by omega) (by have := c.buflen_log; omega)

theorem pageSize_dvd_buflen : pageSize ∣ c.buflen := by
  rw [c.buflen_eq]
  exact Nat.pow_dvd_pow 2 c.buflen_log.1

end RingConsts

/-- The values of the repository: 128 buffers of 4 MiB. -/
def wzConsts : RingConsts where
  nofbufs := 128
  buflen := 4 * 1024 * 1024
  nofbufsLog := 7
  buflenLog := 22
  nofbufs_eq := by decide
  nofbufs_log := by decide
  buflen_eq := by decide
  buflen_log := by decide

/-- The smallest ring, two buffers of one page, on which runs are evaluated. -/
def twoBuffers : RingConsts where
  nofbufs := 2
  buflen := 4096
  nofbufsLog := 1
  buflenLog := 12
  nofbufs_eq := by decide
  nofbufs_log := by decide
  buflen_eq := by decide
  buflen_log := by decide

/-! ## Bits of `xdma-core.h` -/

def descMagic : Word := 0xAD4B0000
def c2hWb : Word := 0x52B4
def lsByteMask : Word := 0x000000FF
def maxExtraAdj : Nat := 15

def xdmaDescStopped : Word := 1
def xdmaDescCompleted : Word := 2

def xdmaStatBusy : Word := 1

def xdmaCtrlRunStop : Word := 0x1
def xdmaCtrlIeDescStopped : Word := 0x2
def xdmaCtrlIeDescCompleted : Word := 0x4
def xdmaCtrlIeDescAlignMismatch : Word := 0x8
def xdmaCtrlIeMagicStopped : Word := 0x10
def xdmaCtrlIeIdleStopped : Word := 0x40
def xdmaCtrlIeReadError : Word := 0x3E00
def xdmaCtrlIeDescError : Word := 0xF80000
def xdmaCtrlNonIncrAddr : Word := 0x2000000

def engineShutdownRequest : Word := 1

/-! ## Error codes returned by the ioctls -/

def eio : Int := 5
def enomem : Int := 12
def efault : Int := 14
def ebusy : Int := 16
def einval : Int := 22
def erestartsys : Int := 512

end WzXdma
