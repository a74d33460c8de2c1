import WzXdma.Engine
import WzXdma.Lib.Loop

/-!
# `ioctl_do_wz_start`

The routine builds a ring of single descriptors, fills it with the addresses of
the buffers, copies it, and queues a cyclic transfer that starts at its first
descriptor.  It can leave early with an error code and the state reached so far.
-/

namespace WzXdma

open Lib.Loop

/-- A routine that ended: it crashed, or it returned a code. -/
inductive Exit
  | crash (e : Crash)
  | ret (d : Driver) (rc : Int)

/-- What the allocations of one `START` answer. -/
structure StartEnv where
  /-- `dma_alloc_coherent` for descriptor `i` -/
  coherent : Nat → Option Kernel.CoherentMem
  /-- `kzalloc` of the transfer -/
  transfer : Bool

namespace Driver

/-- A kernel write that may follow a bad pointer. -/
def liftKern (d : Driver) : Except Crash Kernel → Except Exit Driver
  | .ok k => .ok { d with kern := k }
  | .error e => .error (.crash e)

/-- "If the descriptor was already allocated, clean it!"  The memory is given back
with `buf_dma_t[i]`, and that entry is cleared. -/
def startClean (i : Nat) (d : Driver) : Driver :=
  match d.ext.desc i with
  | none => d
  | some x =>
      { d with
        kern := d.kern.xdmaDescFree x (d.ext.bufDmaT i)
        ext := { d.ext with
          desc := Function.update d.ext.desc i none
          bufDmaT := Function.update d.ext.bufDmaT i 0 } }

/-- One iteration of the loop that allocates and links the descriptors. -/
def startBuild (env : StartEnv) (i : Nat) (d : Driver) : Except Exit Driver :=
  let d := startClean i d
  match d.kern.xdmaDescAlloc 1 (env.coherent i) with
  | none => .error (.ret d (-enomem))
  | some (k, x, bus) =>
      let d := { d with
        kern := k
        ext := { d.ext with
          desc := Function.update d.ext.desc i (some x)
          descDma := Function.update d.ext.descDma i bus } }
      if 0 < i then
        d.liftKern (d.kern.modifyDesc (d.ext.desc (i - 1)) 0 (xdmaDescLink · (some bus)))
      else .ok d

/-- The data of buffer `i` written into its descriptor. -/
def fillDesc (c : WzConsts) (ext : WzExt) (i : Nat) (x : XdmaDesc) : XdmaDesc :=
  xdmaDescControl
    (xdmaDescSet x (ext.bufDmaT i) (ext.descDma i) (BitVec.ofNat 32 c.buflen) false)
    xdmaDescCompleted

/-- One iteration of the loop that fills the descriptors and copies them. -/
def startFill (c : WzConsts) (i : Nat) (d : Driver) : Except Exit Driver :=
  match d.kern.modifyDesc (d.ext.desc i) 0 (fillDesc c d.ext i) with
  | .error e => .error (.crash e)
  | .ok k =>
      match k.derefDesc (d.ext.desc i) 0 with
      | .error e => .error (.crash e)
      | .ok x => d.liftKern (k.storeCopy d.ext.descCopy i x)

/-- The release loop when the transfer structure cannot be allocated. -/
def startUndo (i : Nat) (d : Driver) : Driver :=
  { d with
    kern := match d.ext.desc i with
      | none => d.kern
      | some x => d.kern.xdmaDescFree x (d.ext.descDma i)
    ext := { d.ext with
      desc := Function.update d.ext.desc i none
      descDma := Function.update d.ext.descDma i 0 } }

/-- The fields of the transfer that imitates the building of a transfer. -/
def startTransfer (c : WzConsts) (d : Driver) : XdmaTransfer where
  descVirt := (d.ext.desc 0).getD 0
  descBus := d.ext.descDma 0
  descAdjacent := 0
  descNum := c.nofbufs
  dirToDev := false
  sglNents := 1
  cyclic := true
  state := .new
  wz := true

/-- The end of `START`: create the transfer and queue it. -/
def startQueue (c : WzConsts) (env : StartEnv) (d : Driver) : Except Exit Driver :=
  let (k, t) := d.kern.kzallocTransfer env.transfer (startTransfer c d)
  let d := { d with kern := k, ext := { d.ext with transfer := t } }
  match t with
  | none => .error (.ret (upTo startUndo c.nofbufs d) (-enomem))
  | some t =>
      match d.transferQueue t with
      | .error e => .error (.crash e)
      | .ok (d, _) => .ok d

/-- `START` up to its return. -/
def startBody (c : WzConsts) (env : StartEnv) (d : Driver) : Except Exit Driver :=
  if d.ext.bufReady then
    let d := { d with ext := { d.ext with blockFirstDesc := 0, blockScannedDesc := 0 } }
    match forUpTo (startBuild env) c.nofbufs d with
    | .error e => .error e
    | .ok d =>
        -- close the ring
        match d.liftKern (d.kern.modifyDesc (d.ext.desc (c.nofbufs - 1)) 0
            (xdmaDescLink · (some (d.ext.descDma 0)))) with
        | .error e => .error e
        | .ok d =>
            match forUpTo (startFill c) c.nofbufs d with
            | .error e => .error e
            | .ok d => startQueue c env d
  else .error (.ret d (-einval))

/-- `ioctl_do_wz_start` -/
def ioctlDoWzStart (c : WzConsts) (env : StartEnv) (d : Driver) : Except Crash (Driver × Int) :=
  match startBody c env d with
  | .ok d => .ok (d, 0)
  | .error (.ret d rc) => .ok (d, rc)
  | .error (.crash e) => .error e

end Driver
end WzXdma
