import WzXdma.Kernel
import WzXdma.Scan

/-!
# The engine and its transfer queue

`struct xdma_engine` with `struct wz_xdma_engine_ext`, and the routines of
`xdma-core.c` that start and stop an engine in interrupt mode.  Routines that can
hit a `BUG_ON` or follow a bad pointer return `Except Crash`.
-/

namespace WzXdma

/-- `struct wz_xdma_engine_ext`.  `kfifoSize` is 0 while no FIFO is allocated. -/
structure WzExt extends BlockScan where
  bufDmaT : Nat → DmaAddr
  bufPage : Nat → Option Nat
  transfer : Option Nat
  descCopy : Option Nat
  desc : Nat → Option Nat
  descDma : Nat → DmaAddr
  bufReady : Bool
  kfifoSize : Nat

/-- `struct xdma_performance_ioctl`, the fields the driver reads. -/
structure PerfIoctl where
  version : Word
  transferSize : Word
  deriving DecidableEq, Repr

/-- The registers the driver writes. -/
structure EngineRegs where
  control : Word
  interruptEnableMask : Word
  firstDescLo : Word
  firstDescHi : Word
  firstDescAdjacent : Nat
  perfCtrl : Word
  deriving DecidableEq, Repr

/-- `struct xdma_engine` -/
structure XdmaEngine where
  running : Bool
  status : Word
  shutdown : Word
  descDequeued : Nat
  transferList : List Nat
  xdmaPerf : Option PerfIoctl
  streaming : Bool
  dirToDev : Bool
  nonIncrAddr : Bool
  regs : EngineRegs

/-- The engine, its extension, and the kernel objects behind their pointers. -/
structure Driver where
  kern : Kernel
  engine : XdmaEngine
  ext : WzExt

/-- An extension as `kzalloc` of the engine leaves it. -/
def WzExt.zero : WzExt where
  blockFirstDesc := 0
  blockScannedDesc := 0
  kfifo := []
  bufDmaT := fun _ => 0
  bufPage := fun _ => none
  transfer := none
  descCopy := none
  desc := fun _ => none
  descDma := fun _ => 0
  bufReady := false
  kfifoSize := 0

/-- The C2H streaming engine right after it was created. -/
def XdmaEngine.created : XdmaEngine where
  running := false
  status := 0
  shutdown := 0
  descDequeued := 0
  transferList := []
  xdmaPerf := none
  streaming := true
  dirToDev := false
  nonIncrAddr := false
  regs := ⟨0, 0, 0, 0, 0, 0⟩

def Driver.created : Driver :=
  { kern := .fresh, engine := .created, ext := .zero }

namespace XdmaEngine

/-- `xdma_engine_stop` -/
def xdmaEngineStop (e : XdmaEngine) : XdmaEngine :=
  let w := xdmaCtrlIeDescAlignMismatch ||| xdmaCtrlIeMagicStopped ||| xdmaCtrlIeReadError |||
    xdmaCtrlIeDescError ||| xdmaCtrlIeDescStopped ||| xdmaCtrlIeDescCompleted
  let w := if (e.streaming && !e.dirToDev) || e.xdmaPerf.isSome then w ||| xdmaCtrlIeIdleStopped
    else w
  { e with regs := { e.regs with control := w } }

/-- `engine_start_mode_config` -/
def engineStartModeConfig (e : XdmaEngine) : XdmaEngine :=
  let mask := xdmaCtrlIeDescStopped ||| xdmaCtrlIeDescCompleted ||| xdmaCtrlIeDescAlignMismatch |||
    xdmaCtrlIeMagicStopped ||| xdmaCtrlIeIdleStopped ||| xdmaCtrlIeReadError ||| xdmaCtrlIeDescError
  let w := xdmaCtrlRunStop ||| xdmaCtrlIeReadError ||| xdmaCtrlIeDescError |||
    xdmaCtrlIeDescAlignMismatch ||| xdmaCtrlIeMagicStopped ||| xdmaCtrlIeDescStopped |||
    xdmaCtrlIeDescCompleted
  let w := if e.streaming && !e.dirToDev then w ||| xdmaCtrlIeIdleStopped else w
  let w := if e.xdmaPerf.isSome then w ||| xdmaCtrlIeIdleStopped else w
  let w := if e.nonIncrAddr then w ||| xdmaCtrlNonIncrAddr else w
  { e with
    regs := { e.regs with
      control := w
      interruptEnableMask := if e.xdmaPerf.isSome then mask else e.regs.interruptEnableMask } }

/-- `engine_service_shutdown` -/
def engineServiceShutdown (e : XdmaEngine) : XdmaEngine :=
  { e.xdmaEngineStop with running := false }

end XdmaEngine

namespace Driver

/-- `engine_start` -/
def engineStart (d : Driver) : Except Crash Driver :=
  if d.engine.running then .error .bugOn
  else
    match d.engine.transferList with
    | [] => .error .bugOn
    | t :: _ =>
        match d.kern.transfers t with
        | none => .error .useAfterFree
        | some transfer =>
            let extraAdj := if 0 < transfer.descAdjacent then min (transfer.descAdjacent - 1) maxExtraAdj
              else 0
            let e := { d.engine with
              shutdown := 0
              descDequeued := 0
              regs := { d.engine.regs with
                firstDescLo := pciDmaL transfer.descBus
                firstDescHi := pciDmaH transfer.descBus
                firstDescAdjacent := extraAdj } }
            .ok { d with engine := { e.engineStartModeConfig with running := true } }

/-- `transfer_queue` -/
def transferQueue (d : Driver) (t : Nat) : Except Crash (Driver × Int) :=
  match d.kern.transfers t with
  | none => .error .useAfterFree
  | some transfer =>
      if transfer.descNum = 0 then .error .bugOn
      else if d.engine.shutdown &&& engineShutdownRequest ≠ 0 then .ok (d, -1)
      else
        let d := { d with
          kern := { d.kern with
            transfers := Function.update d.kern.transfers t
              (some { transfer with state := .submitted }) }
          engine := { d.engine with transferList := d.engine.transferList ++ [t] } }
        if d.engine.running then .ok (d, 0)
        else
          match d.engineStart with
          | .ok d' => .ok (d', 0)
          | .error e => .error e

/-- `engine_cyclic_stop`.  The STOP flag goes to `desc_virt + desc_num - 1`. -/
def engineCyclicStop (d : Driver) : Except Crash Driver :=
  match d.engine.transferList with
  | [] => .ok d
  | t :: _ =>
      match d.kern.transfers t with
      | none => .error .useAfterFree
      | some transfer =>
          let d := { d with engine := d.engine.xdmaEngineStop }
          if transfer.cyclic then
            match d.kern.modifyDesc (some transfer.descVirt) (transfer.descNum - 1)
                (xdmaDescControl · (xdmaDescCompleted ||| xdmaDescStopped)) with
            | .ok k => .ok { d with kern := k }
            | .error e => .error e
          else .ok d

end Driver
end WzXdma
