import Mathlib.Logic.Function.Basic

/-!
# The driver of the DataMover

The interrupt handler and the ioctls of `axi4s2dmov.c`, with the FIFOs that lead to the DataMover and
back.  An ioctl and the handler each advance by one assignment or register access at a time, in any
order, so the handler may also run while an ioctl is under way.  There is no lock.

`BUF_NUM` comes from a header that is not there and is a parameter, as are the addresses of the
buffers.  The delays, the wake-ups and the pins of the data generator carry no state.  What the DataMover has completed and what the
ioctls have returned is recorded in two fields that no function reads.
-/

namespace WzXdma
namespace Dmover

/-- The commands of `tst1_ioctl`. -/
inductive Cmd
  | admReset
  | admStart
  | admStop
  | admGet
  | admConfirm
  | other
  deriving DecidableEq, Repr

/-- The register that `transfer_buf` writes next. -/
inductive Xfer
  | control
  | address
  | tag
  | length
  deriving DecidableEq, Repr

/-- The statement at which the ioctl stands. -/
inductive Ioctl
  | idle
  | startExp
  | startReceived
  | startClear (i : Nat)
  | startTest (i : Nat)
  | startSubmit (i : Nat) (x : Xfer)
  | startIer
  | startFlag
  | getWait
  | getRead
  | confirmTest
  | confirmLen
  | confirmReady
  | confirmSubmit (x : Xfer)
  | confirmNext
  | confirmWrap
  deriving DecidableEq, Repr

/-- The statement at which the interrupt handler stands. -/
inductive Irq
  | idle
  | occupancy
  | length
  | data
  | setLen (res : BitVec 32)
  | setReady (nbuf : Nat)
  | nextExp
  | wrapExp
  deriving DecidableEq, Repr

/-- What an ioctl returns.  The buffer of a confirmation is not part of the answer. -/
inductive Reply
  | success
  | confirmed (nbuf : Nat)
  | got (res : BitVec 32)
  | einval
  | restartsys
  deriving DecidableEq, Repr

/-- A packet of the receive FIFO: its length in bytes and its first word. -/
structure Packet where
  rlr : Nat
  rdfd : BitVec 32
  deriving DecidableEq, Repr

/-- A transfer that the DataMover has carried out. -/
structure Completion where
  tag : BitVec 4
  len : BitVec 22
  eop : Bool
  deriving DecidableEq, Repr

structure State where
  blen : Nat → BitVec 32
  bready : Nat → Bool
  receivedBuf : Nat
  expBuf : Nat
  isStarted : Bool
  /-- the bit of `AF_IER` -/
  ier : Bool
  /-- the bit of `AF_ISR` -/
  isr : Bool
  /-- the words that were written to `AF_TDFD` since the last packet -/
  tdfd : List (BitVec 32)
  /-- the packets on their way to the DataMover -/
  commands : List (List (BitVec 32))
  /-- the packets that came back -/
  statuses : List Packet
  /-- the handler has reported an error -/
  kernErr : Bool
  ioctl : Ioctl
  irq : Irq
  completed : List Completion
  replies : List Reply

/-! ## The DataMover -/

namespace Completion

/-- The status word: `EOP`, the length, `OKAY` and the tag. -/
def status (x : Completion) : BitVec 32 :=
  BitVec.ofBool x.eop ++ 0#1 ++ x.len ++ 1#1 ++ 0#3 ++ x.tag

/-- The status as a packet. -/
def packet (x : Completion) : Packet := ⟨4, x.status⟩

end Completion

/-- The tag of a command is in the ninth byte. -/
def tagOf (command : List (BitVec 32)) : BitVec 4 := (command.getD 2 0).extractLsb' 0 4

namespace State

/-- The oldest command is carried out, and its status arrives. -/
def mover (s : State) (len : BitVec 22) (eop : Bool) : Option State :=
  match s.commands with
  | [] => none
  | command :: rest =>
      let x : Completion := ⟨tagOf command, len, eop⟩
      some { s with
        commands := rest
        statuses := s.statuses ++ [x.packet]
        isr := true
        completed := s.completed ++ [x] }

end State

/-! ## The ioctls -/

/-- The maximum length of a transfer, and the bits `TYPE` and `EOF`. -/
def controlWord : BitVec 32 := ((1#32 <<< 22) - 1) ||| (1#32 <<< 23) ||| (1#32 <<< 30)

/-- Where `transfer_buf` goes on. -/
def Xfer.next : Xfer → Option Xfer
  | .control => some .address
  | .address => some .tag
  | .tag => some .length
  | .length => none

section Driver

variable (bufNum : Nat) (physBuf : Nat → BitVec 32)

namespace State

/-- One register access of `transfer_buf(i)`. -/
def transferBuf (s : State) (i : Nat) : Xfer → State
  | .control => { s with tdfd := s.tdfd ++ [controlWord] }
  | .address => { s with tdfd := s.tdfd ++ [physBuf i] }
  | .tag => { s with tdfd := s.tdfd ++ [BitVec.ofNat 32 i] }
  | .length => { s with commands := s.commands ++ [s.tdfd], tdfd := [] }

def reply (s : State) (r : Reply) : State :=
  { s with ioctl := .idle, replies := s.replies ++ [r] }

/-- The call of `tst1_ioctl` up to the first assignment.  `ADM_RESET` empties the FIFOs and the
DataMover, `ADM_STOP` leaves them. -/
def call (s : State) (cmd : Cmd) : Option State :=
  if s.ioctl = .idle then
    match cmd with
    | .admReset => some ({ s with tdfd := [], commands := [], statuses := [] }.reply .success)
    | .admStart =>
        if s.isStarted then some (s.reply .einval) else some { s with ioctl := .startExp }
    | .admStop => some ({ s with ier := false, isStarted := false }.reply .success)
    | .admGet => some { s with ioctl := .getWait }
    | .admConfirm => some { s with ioctl := .confirmTest }
    | .other => some (s.reply .einval)
  else none

/-- The next statement of the ioctl.  A `wait_event_interruptible` whose condition does not hold
sleeps. -/
def ioctlStep (s : State) : Option State :=
  match s.ioctl with
  | .idle => none
  | .startExp => some { s with expBuf := 0, ioctl := .startReceived }
  | .startReceived => some { s with receivedBuf := 0, ioctl := .startClear 0 }
  | .startClear i =>
      if i < bufNum then
        some { s with bready := Function.update s.bready i false, ioctl := .startClear (i + 1) }
      else some { s with ioctl := .startTest 0 }
  | .startTest i =>
      if i < bufNum then some { s with ioctl := .startSubmit i .control }
      else some { s with ioctl := .startIer }
  | .startSubmit i x =>
      some { s.transferBuf physBuf i x with
        ioctl := x.next.elim (.startTest (i + 1)) (.startSubmit i) }
  | .startIer => some { s with ier := true, ioctl := .startFlag }
  | .startFlag => some ({ s with isStarted := true }.reply .success)
  | .getWait => if s.bready s.receivedBuf then some { s with ioctl := .getRead } else none
  | .getRead =>
      some (s.reply (.got (BitVec.ofNat 32 s.receivedBuf <<< 24 ||| s.blen s.receivedBuf)))
  | .confirmTest =>
      if s.bready s.receivedBuf then some { s with ioctl := .confirmLen } else some (s.reply .einval)
  | .confirmLen =>
      some { s with blen := Function.update s.blen s.receivedBuf 0, ioctl := .confirmReady }
  | .confirmReady =>
      some { s with
        bready := Function.update s.bready s.receivedBuf false
        ioctl := .confirmSubmit .control }
  | .confirmSubmit x =>
      some { s.transferBuf physBuf s.receivedBuf x with
        ioctl := x.next.elim .confirmNext .confirmSubmit }
  | .confirmNext => some { s with receivedBuf := s.receivedBuf + 1, ioctl := .confirmWrap }
  | .confirmWrap =>
      some ({ s with receivedBuf := if s.receivedBuf = bufNum then 0 else s.receivedBuf }.reply
        (.confirmed (s.receivedBuf - 1)))

/-- A signal ends the wait of `ADM_GET`. -/
def signal (s : State) : Option State :=
  if s.ioctl = .getWait then some (s.reply .restartsys) else none

/-! ## The interrupt handler -/

/-- The next statement of `tst1_irq`, which is entered at any time and does nothing when the device
does not request an interrupt. -/
def irqStep (s : State) : State :=
  match s.irq with
  | .idle => if s.isr then { s with isr := false, irq := .occupancy } else s
  | .occupancy => if s.statuses = [] then { s with irq := .idle } else { s with irq := .length }
  | .length =>
      match s.statuses with
      | p :: _ =>
          if p.rlr = 4 then { s with irq := .data } else { s with kernErr := true, irq := .idle }
      | [] => { s with kernErr := true, irq := .idle }
  | .data =>
      match s.statuses with
      | p :: rest =>
          if p.rdfd &&& (1#32 <<< 7) = 0 then
            { s with statuses := rest, kernErr := true, irq := .idle }
          else { s with statuses := rest, irq := .setLen p.rdfd }
      | [] => { s with kernErr := true, irq := .idle }
  | .setLen res =>
      let nbuf := (res &&& 0xf).toNat
      { s with
        kernErr := if nbuf ≠ s.expBuf then true else s.kernErr
        blen := Function.update s.blen nbuf ((res &&& 0x3fffff00) >>> 8)
        irq := .setReady nbuf }
  | .setReady nbuf => { s with bready := Function.update s.bready nbuf true, irq := .nextExp }
  | .nextExp => { s with expBuf := s.expBuf + 1, irq := .wrapExp }
  | .wrapExp =>
      { s with expBuf := if s.expBuf = bufNum then 0 else s.expBuf, irq := .occupancy }

end State

/-! ## Runs -/

inductive Act
  | call (cmd : Cmd)
  | ioctl
  | signal
  | irq
  | mover (len : BitVec 22) (eop : Bool)
  deriving DecidableEq, Repr

def step (s : State) : Act → Option State
  | .call cmd => s.call cmd
  | .ioctl => s.ioctlStep bufNum physBuf
  | .signal => s.signal
  | .irq => some (s.irqStep bufNum)
  | .mover len eop => s.mover len eop

end Driver

/-- One acquisition: nobody stops or resets it. -/
def acquisition (_ : State) : Act → Prop
  | .call cmd => cmd = .admStart ∨ cmd = .admGet ∨ cmd = .admConfirm
  | _ => True

instance (s : State) : ∀ a : Act, Decidable (acquisition s a)
  | .call cmd => inferInstanceAs (Decidable (cmd = .admStart ∨ cmd = .admGet ∨ cmd = .admConfirm))
  | .ioctl => isTrue trivial
  | .signal => isTrue trivial
  | .irq => isTrue trivial
  | .mover _ _ => isTrue trivial

/-- `ADM_START` on a DataMover that was just reset.  The variables of the driver are those of the
acquisition before. -/
structure Fresh (s : State) : Prop where
  ioctl : s.ioctl = .startExp
  irq : s.irq = .idle
  tdfd : s.tdfd = []
  commands : s.commands = []
  statuses : s.statuses = []
  kernErr : s.kernErr = false
  completed : s.completed = []
  replies : s.replies = []

end Dmover
end WzXdma
