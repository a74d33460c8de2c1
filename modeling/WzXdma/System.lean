import WzXdma.Ioctl.Buffers
import WzXdma.Ioctl.Perf
import WzXdma.Ioctl.Stop
import WzXdma.Lib.Machine
import WzXdma.Mmap
import WzXdma.Service

/-!
# The driver as a machine

The states are those of one engine and its kernel objects, the actions are the
ioctls, the runs of `engine_service_work`, the page faults on user mappings and
the writebacks of the device, in any order and with any outcome of the
allocations.  A `STOP` sleeps between its request and its end, and other calls may
come in between.

An action that crashes is not a step.  The results about crashes are stated on the
routines, in the states where they are called.

Next to the driver the state remembers, for the statements, the addresses that
`dma_map_page` returned in the last successful `ALLOC_BUFFERS` and the pages with
which the ring was last programmed.
-/

namespace WzXdma

open Driver

/-- A frame in a user mapping, with the page block it was taken from. -/
structure Frame where
  owner : Option Nat
  frame : Nat
  deriving DecidableEq, Repr

structure Sys where
  drv : Driver
  /-- calls of `STOP` that wait for the engine -/
  stopping : Nat
  /-- what the user mappings hold -/
  vmas : Nat → Option (List Frame)
  mapped : Nat → DmaAddr
  programmed : Nat → Option Nat

/-- The engine was created, and nothing has been asked of it. -/
def Sys.created : Sys where
  drv := .created
  stopping := 0
  vmas := fun _ => none
  mapped := fun _ => 0
  programmed := fun _ => none

inductive Act
  | allocBuffers (env : AllocEnv)
  | freeBuffers
  | start (env : StartEnv)
  | stopRequest
  | stopFinish
  | getbuf (copyFails : Bool)
  | confirm (arg : Option WzXdmaDataBlockConfirm)
  | perfStart (env : PerfEnv) (request : PerfIoctl)
  | perfStop (copyFails : Bool)
  | service (fuel : Nat) (status : Word)
  | writeback (desc index : Nat) (eop : Bool) (length : Word)
  | mmap (vma : Nat)
  | fault (vma offset : Nat)
  | munmap (vma : Nat)

namespace Sys

/-- A completed descriptor is overwritten by the device. -/
def deviceWriteback (d : Driver) (desc index : Nat) (eop : Bool) (length : Word) : Option Driver :=
  (d.kern.coherent desc).map fun block =>
    { d with
      kern := { d.kern with
        coherent := Function.update d.kern.coherent desc
          (some { block with descs := block.descs.modify index (·.writeback eop length) }) } }

/-- The driver after an action, and the code it returned.  There is none when the
action is not enabled or crashes. -/
def drvStep (c : WzConsts) (s : Sys) : Act → Option (Driver × Int)
  | .allocBuffers env => some (ioctlDoWzAllocBuffers c env s.drv)
  | .freeBuffers => some (ioctlDoWzFreeBuffers c s.drv)
  | .start env => (ioctlDoWzStart c env s.drv).toOption
  | .stopRequest => (ioctlDoWzStopRequest s.drv).toOption.map (·, 0)
  | .stopFinish =>
      if 0 < s.stopping ∧ s.drv.engine.running = false then some (ioctlDoWzStopFinish c s.drv)
      else none
  | .getbuf copyFails =>
      if s.drv.getbufReady then
        some ((ioctlDoWzGetbuf copyFails s.drv).1, (ioctlDoWzGetbuf copyFails s.drv).2.1)
      else none
  | .confirm arg => (ioctlDoWzConfirm c arg s.drv).toOption
  | .perfStart env request => (ioctlDoPerfStart env request s.drv).toOption
  | .perfStop copyFails => (ioctlDoPerfStop copyFails s.drv).toOption
  | .service fuel status =>
      (wzEngineServiceCyclicInterrupt c fuel status s.drv).toOption.map (·, 0)
  | .writeback desc index eop length =>
      (deviceWriteback s.drv desc index eop length).map (·, 0)
  | .mmap vma => if s.vmas vma = none ∧ charSgdmaWzMmap s.drv = 0 then some (s.drv, 0) else none
  | .fault vma _ => if (s.vmas vma).isSome then some (s.drv, 0) else none
  | .munmap _ => some (s.drv, 0)

/-- What a page fault leaves in the mapping. -/
def insertFrame (frames : List Frame) : MmapFault → List Frame
  | .efault => frames
  | .inserted page frame => ⟨some page, frame⟩ :: frames
  | .insertedStray => ⟨none, 0⟩ :: frames

/-- The user mappings after an action. -/
def vmasAfter (c : WzConsts) (s : Sys) : Act → Nat → Option (List Frame)
  | .mmap vma => Function.update s.vmas vma (some [])
  | .fault vma offset =>
      Function.update s.vmas vma
        ((s.vmas vma).map fun frames => insertFrame frames (swzMmapFault c s.drv offset))
  | .munmap vma => Function.update s.vmas vma none
  | _ => s.vmas

def stoppingAfter (s : Sys) : Act → Nat
  | .stopRequest => s.stopping + 1
  | .stopFinish => s.stopping - 1
  | _ => s.stopping

def mappedAfter (s : Sys) (rc : Int) : Act → Nat → DmaAddr
  | .allocBuffers env => if rc = 0 then env.maps else s.mapped
  | _ => s.mapped

def programmedAfter (s : Sys) (d : Driver) (rc : Int) : Act → Nat → Option Nat
  | .start _ => if rc = 0 then d.ext.bufPage else s.programmed
  | _ => s.programmed

def step (c : WzConsts) (s : Sys) (a : Act) : Option Sys :=
  (drvStep c s a).map fun (d, rc) =>
    { drv := d
      stopping := s.stoppingAfter a
      vmas := s.vmasAfter c a
      mapped := s.mappedAfter rc a
      programmed := s.programmedAfter d rc a }

/-- The states of all runs. -/
def Reachable (c : WzConsts) (s : Sys) : Prop :=
  Lib.Machine.Reach (step c) (fun _ _ => True) .created s

end Sys

/-! ## An environment that grants everything

Used where a run is evaluated. -/

def XdmaDesc.zero : XdmaDesc := ⟨0, 0, 0, 0, 0, 0, 0, 0⟩

/-- Buffer `i` has its page block at frame `1024 * (i + 1)`, mapped one to one. -/
def allocGranted : AllocEnv where
  pages := fun i => some (1024 * (i + 1))
  maps := fun i => BitVec.ofNat 64 (1024 * (i + 1) * pageSize)
  copy := some fun _ => .zero
  kfifo := true

def startGranted : StartEnv where
  coherent := fun i => some ⟨BitVec.ofNat 64 (32 * (i + 1)), fun _ => .zero⟩
  transfer := true

/-- A measurement that needs one descriptor. -/
def perfGranted : PerfEnv where
  perf := true
  bufferBus := 0x10000000
  transfer := true
  coherent := some ⟨0x20000000, fun _ => .zero⟩

def perfRequest : PerfIoctl := ⟨ioctlXdmaPerfV1, BitVec.ofNat 32 maxConsistentSize⟩

/-- A start that returns 0 in a state that passes a test, found by evaluation. -/
theorem exists_start_of_exec (c : WzConsts) (acts : List Act) (env : StartEnv)
    (p : Sys → Driver → Bool)
    (h : ((Lib.Machine.execOk (Sys.step c) (fun _ _ => True) .created acts).map fun s =>
      match s.drv.ioctlDoWzStart c env with
      | .ok (d, rc) => decide (rc = 0) && p s d
      | .error _ => false) = some true) :
    ∃ (s : Sys) (d : Driver), s.Reachable c ∧ s.drv.ioctlDoWzStart c env = .ok (d, 0) ∧
      p s d = true := by
  obtain ⟨s, hs, hp⟩ := Lib.Machine.exists_reach_of_execOk _ _ _ _ _ h
  split at hp
  · rename_i d rc hd
    simp only [Bool.and_eq_true, decide_eq_true_eq] at hp
    exact ⟨s, d, hs, hp.1 ▸ hd, hp.2⟩
  · cases hp

end WzXdma
