import WzXdma.Engine

/-!
# `ioctl_do_perf_start` and `ioctl_do_perf_stop`

The performance measurement queues a cyclic transfer of its own on the same
engine.
-/

namespace WzXdma

def ioctlXdmaPerfV1 : Word := 1
def xdmaPerfRun : Word := 1
def xdmaPerfAuto : Word := 4

/-- `max_consistent_size` of `xdma_performance_submit`: 4 MiB -/
def maxConsistentSize : Nat := 128 * 32 * 1024

/-- What the allocations of one `PERF_START` answer. -/
structure PerfEnv where
  /-- `kzalloc` of the request -/
  perf : Bool
  /-- the bus address of the buffer from `pci_alloc_consistent` -/
  bufferBus : DmaAddr
  /-- `kzalloc` of the transfer -/
  transfer : Bool
  /-- `dma_alloc_coherent` of the descriptors -/
  coherent : Option Kernel.CoherentMem

namespace Driver

/-- The descriptors of the measurement ring, before the first one's control field
is cleared and the last one is linked to the first. -/
def perfDescs (descs : List XdmaDesc) (bufferBus : DmaAddr) (sizeInDesc : Nat) (dirToDev : Bool) :
    List XdmaDesc :=
  descs.mapIdx fun i desc =>
    xdmaDescSet desc (bufferBus + BitVec.ofNat 64 (sizeInDesc * i)) 0 (BitVec.ofNat 32 sizeInDesc)
      dirToDev

/-- `xdma_performance_submit` for a request of `sizeInDesc` bytes per descriptor. -/
def xdmaPerformanceSubmit (env : PerfEnv) (sizeInDesc : Nat) (d : Driver) : Except Crash Driver :=
  if maxConsistentSize < sizeInDesc then .error .bugOn
  else
    let numDescInALoop :=
      if maxConsistentSize < sizeInDesc * 128 then maxConsistentSize / sizeInDesc else 128
    if env.transfer = false then .error .bugOn
    else if numDescInALoop < 1 then .error .bugOn
    else
      match d.kern.xdmaDescAlloc numDescInALoop env.coherent with
      | none => .error .bugOn
      | some (k, x, bus) =>
          let ring := fun block : DescBlock =>
            { block with
              descs := ((perfDescs block.descs env.bufferBus sizeInDesc d.engine.dirToDev).modify 0
                (xdmaDescControl · 0)).modify (numDescInALoop - 1) (xdmaDescLink · (some bus)) }
          let k := { k with coherent := Function.update k.coherent x ((k.coherent x).map ring) }
          let (k, t) := k.kzallocTransfer true
            { descVirt := x, descBus := bus, descAdjacent := 0, descNum := numDescInALoop,
              dirToDev := d.engine.dirToDev, sglNents := 0, cyclic := true, state := .new,
              wz := false }
          match t with
          | none => .error .bugOn
          | some t =>
              match ({ d with kern := k } : Driver).transferQueue t with
              | .error e => .error e
              | .ok (d, _) => .ok d

/-- `ioctl_do_perf_start`.  `copy_from_user` never returns a negative value, so its
failure is not noticed: `request` is what the memory holds after it. -/
def ioctlDoPerfStart (env : PerfEnv) (request : PerfIoctl) (d : Driver) :
    Except Crash (Driver × Int) :=
  if d.engine.xdmaPerf.isSome then .ok (d, -ebusy)
  else if env.perf = false then .ok (d, -enomem)
  else
    let d := { d with engine := { d.engine with xdmaPerf := some request } }
    if request.version ≠ ioctlXdmaPerfV1 then .ok (d, -einval)
    else
      let d := { d with
        engine := { d.engine with
          regs := { d.engine.regs with perfCtrl := xdmaPerfAuto ||| xdmaPerfRun } } }
      match xdmaPerformanceSubmit env request.transferSize.toNat d with
      | .error e => .error e
      | .ok d => .ok (d, 0)

/-- `ioctl_do_perf_stop`; `copyFails` is the outcome of `copy_to_user`. -/
def ioctlDoPerfStop (copyFails : Bool) (d : Driver) : Except Crash (Driver × Int) :=
  if d.engine.xdmaPerf.isNone then .ok (d, -einval)
  else
    match d.engineCyclicStop with
    | .error e => .error e
    | .ok d =>
        if copyFails then .ok (d, -einval)
        else .ok ({ d with engine := { d.engine with xdmaPerf := none } }, 0)

end Driver
end WzXdma
