import WzXdma.Desc
import WzXdma.Lib.Cyclic

/-!
# Assembling blocks

One iteration of the `while(true)` loop of `wz_engine_service_cyclic_interrupt`,
as a decision on the descriptor it looks at and the effect of that decision on
the cursors and the FIFO.  The loop itself appears twice in the model: as a
sequence of steps that interleave with the device and the application, and run to
its end inside a service routine.
-/

namespace WzXdma

/-- `struct wz_xdma_data_block_desc` -/
structure WzXdmaDataBlockDesc where
  firstDesc : Word
  lastDesc : Word
  lastLen : Word
  deriving DecidableEq, Repr

/-- The fields of `struct wz_xdma_engine_ext` that keep track of the filled
blocks.  The FIFO holds its entries oldest first. -/
structure BlockScan where
  blockFirstDesc : Nat
  blockScannedDesc : Nat
  kfifo : List WzXdmaDataBlockDesc
  deriving DecidableEq, Repr

/-- `(i + 1) & (WZ_DMA_NOFBUFS - 1)` -/
def nextDesc (nofbufs i : Nat) : Nat := (i + 1) &&& (nofbufs - 1)

theorem nextDesc_lt {nofbufs : Nat} (hpos : 0 < nofbufs) (i : Nat) :
    nextDesc nofbufs i < nofbufs := by
  have hle : nextDesc nofbufs i ≤ nofbufs - 1 := Nat.and_le_right
  omega

/-- What an iteration finds: no writeback, a block that fits into the FIFO or does
not, or a descriptor inside a block. -/
inductive ScanMove
  | finished
  | reported (db : WzXdmaDataBlockDesc)
  | postponed
  | passed
  deriving DecidableEq, Repr

/-- The decision of one iteration at `checkDesc`, whose writeback area holds `r`,
with a FIFO of `size` entries. -/
def scanMove (size : Nat) (r : XdmaResult) (checkDesc : Nat) (b : BlockScan) : ScanMove :=
  if r.HasWb then
    if r.eop then
      if b.kfifo.length < size then
        .reported { firstDesc := BitVec.ofNat 32 b.blockFirstDesc
                    lastDesc := BitVec.ofNat 32 checkDesc
                    lastLen := r.length }
      else .postponed
    else .passed
  else .finished

/-- The effect of the decision: the new cursors and FIFO, and the next
`check_desc` unless the loop ends. -/
def BlockScan.apply (nofbufs checkDesc : Nat) (b : BlockScan) : ScanMove → BlockScan × Option Nat
  | .finished => ({ b with blockScannedDesc := checkDesc }, none)
  | .reported db =>
      let next := nextDesc nofbufs checkDesc
      ({ blockFirstDesc := next, blockScannedDesc := next, kfifo := b.kfifo ++ [db] }, some next)
  -- no room: `block_scanned_desc` keeps its value and the scan is repeated later
  | .postponed => (b, none)
  | .passed => (b, some (nextDesc nofbufs checkDesc))

theorem nextDesc_eq (c : RingConsts) (i : Nat) : nextDesc c.nofbufs i = (i + 1) % c.nofbufs :=
  Lib.Cyclic.succ_and_mask c.nofbufs_eq i

theorem nextDesc_mod (c : RingConsts) (k : Nat) :
    nextDesc c.nofbufs (k % c.nofbufs) = (k + 1) % c.nofbufs := by
  rw [nextDesc_eq, Lib.Cyclic.succ_mod]

end WzXdma
