import WzXdma.Engine
import WzXdma.Lib.Loop

/-!
# `ioctl_do_wz_alloc_buffers` and `ioctl_do_wz_free_buffers`

The loop over the buffers leaves `ALLOC_BUFFERS` at the first failed allocation,
with the state it has reached so far, and the `err1` path then releases every
buffer whose entry is set.  The same release loop runs in `FREE_BUFFERS`.
-/

namespace WzXdma

open Lib.Loop

/-- What the allocations of one `ALLOC_BUFFERS` answer. -/
structure AllocEnv where
  /-- `alloc_pages` for buffer `i`: the first frame number -/
  pages : Nat → Option Nat
  /-- `dma_map_page` for buffer `i` -/
  maps : Nat → DmaAddr
  /-- `vmalloc` of the copies -/
  copy : Option (Nat → XdmaDesc)
  /-- `kfifo_alloc` -/
  kfifo : Bool

namespace Driver

/-- One iteration of the allocation loop. -/
def allocBuffer (env : AllocEnv) (i : Nat) (d : Driver) : Except (Driver × Int) Driver :=
  let (k, page) := d.kern.allocPages (env.pages i)
  let d := { d with kern := k, ext := { d.ext with bufPage := Function.update d.ext.bufPage i page } }
  match page with
  | none => .error (d, -enomem)
  | some p =>
      let (k, addr) := d.kern.dmaMapPage p (env.maps i)
      let d := { d with
        kern := k
        ext := { d.ext with bufDmaT := Function.update d.ext.bufDmaT i addr } }
      if addr = 0 then .error (d, -enomem) else .ok d

/-- One iteration of the release loop of `err1` and of `FREE_BUFFERS`. -/
def releaseBuffer (i : Nat) (d : Driver) : Driver :=
  let d :=
    if d.ext.bufDmaT i = 0 then d
    else { d with
      kern := d.kern.dmaUnmapPage (d.ext.bufDmaT i)
      ext := { d.ext with bufDmaT := Function.update d.ext.bufDmaT i 0 } }
  match d.ext.bufPage i with
  | none => d
  | some p =>
      { d with
        kern := d.kern.freePages p
        ext := { d.ext with bufPage := Function.update d.ext.bufPage i none } }

/-- `if (ext->desc_copy) { vfree(ext->desc_copy); ext->desc_copy = NULL; }` -/
def releaseCopy (d : Driver) : Driver :=
  match d.ext.descCopy with
  | none => d
  | some v => { d with kern := d.kern.vfreeCopy v, ext := { d.ext with descCopy := none } }

/-- Everything of `ALLOC_BUFFERS` before `err1`. -/
def allocTry (c : WzConsts) (env : AllocEnv) (d : Driver) : Except (Driver × Int) Driver :=
  match forUpTo (allocBuffer env) c.nofbufs d with
  | .error e => .error e
  | .ok d =>
      let (k, copy) := d.kern.vmallocCopy env.copy
      let d := { d with kern := k, ext := { d.ext with descCopy := copy } }
      match copy with
      | none => .error (d, -enomem)
      | some _ =>
          if env.kfifo then
            .ok { d with ext := { d.ext with kfifo := [], kfifoSize := c.nofbufs, bufReady := true } }
          else .error ({ d with ext := { d.ext with kfifo := [], kfifoSize := 0 } }, -enomem)

/-- `ioctl_do_wz_alloc_buffers` -/
def ioctlDoWzAllocBuffers (c : WzConsts) (env : AllocEnv) (d : Driver) : Driver × Int :=
  match allocTry c env d with
  | .ok d => (d, 0)
  | .error (d, res) =>
      let d := (upTo releaseBuffer c.nofbufs d).releaseCopy
      ({ d with ext := { d.ext with bufReady := false } }, res)

/-- `ioctl_do_wz_free_buffers` -/
def ioctlDoWzFreeBuffers (c : WzConsts) (d : Driver) : Driver × Int :=
  let d := if d.ext.bufReady then upTo releaseBuffer c.nofbufs d else d
  let d := { d with ext := { d.ext with kfifo := [], kfifoSize := 0, bufReady := false } }
  (d.releaseCopy, 0)

end Driver
end WzXdma
