import WzXdma.Hdl.RandomSource
import WzXdma.Placement

/-!
# The tester

The main loop of `tester2.c`: it takes a block, looks at its header and at some of its
payload in the mapped buffers, and confirms it.  The loop runs next to the device and the
interrupt scan of an acquisition, and it is the only one that takes and confirms blocks.
Every look at a payload is a step of its own, so the device writes in between.

What the tester prints when it finds an error is kept in `printed`.  Time measurement and the
progress reports are left out.
-/

namespace WzXdma
namespace Tester

open Lib Lib.Cyclic Hdl

/-- `TOT_BUF_LEN` -/
def totBufLen (c : WzConsts) : Nat := c.buflen * c.nofbufs

/-- `dta[j]` of the `struct dta_payload` at `index` of `data_buf`. -/
def dta (dataBuf : Nat → Byte) (index j : Nat) : Word :=
  dataBuf (index + (4 * j + 3)) ++ dataBuf (index + (4 * j + 2)) ++
    dataBuf (index + (4 * j + 1)) ++ dataBuf (index + 4 * j)

/-- `get_step`, of the `flags` of a `struct dta_header` -/
def getStep (flags : Word) : Word := (flags >>> 8) &&& 0xf

/-- `get_init` -/
def getInit (flags : Word) : Word := flags &&& 0xff

/-- The two error messages about a block. -/
inductive Report
  | length (buffer dlen dinit dstep : Word) (expLen : Int) (curLen : Nat)
  | data (buffer dlen : Word) (index position : Nat) (expected received : Word)
  deriving DecidableEq, Repr

/-- The variables of the loop over the payload. -/
structure Checking where
  bdesc : WzXdmaDataBlockDesc
  dlen : Word
  dinit : Word
  dstep : Word
  dtaIndex : Nat
  i : Nat
  deriving DecidableEq, Repr

/-- Where the tester is in its loop. -/
inductive Phase
  | getbuf
  | received (bdesc : WzXdmaDataBlockDesc)
  | checking (v : Checking)
  | checked (bdesc : WzXdmaDataBlockDesc)
  | confirming
  deriving DecidableEq, Repr

structure App where
  phase : Phase
  first : Bool
  curLen : Nat
  totLen : Nat
  printed : List Report
  deriving DecidableEq, Repr

/-- The length of a block, as the tester computes it. -/
def blockLen (c : WzConsts) (bdesc : WzXdmaDataBlockDesc) : Nat :=
  c.buflen * ((bdesc.lastDesc - bdesc.firstDesc).toNat % c.nofbufs) + bdesc.lastLen.toNat

/-- The header is read and the length is compared.  The first block is not looked at. -/
def readHeader (c : WzConsts) (dataBuf : Nat → Byte) (bdesc : WzXdmaDataBlockDesc) (a : App) :
    App :=
  if a.first then { a with first := false, phase := .checked bdesc }
  else
    let dtaIndex := c.buflen * bdesc.firstDesc.toNat
    let flags := dta dataBuf dtaIndex 0
    let dlen := dta dataBuf dtaIndex 1
    let expLen := (dlen * 32).toInt
    let curLen := blockLen c bdesc
    { a with
      phase := .checking ⟨bdesc, dlen, getInit flags, getStep flags, dtaIndex, 0⟩
      curLen := curLen
      printed := a.printed ++
        if (curLen : Int) = expLen then []
        else [.length bdesc.firstDesc dlen (getInit flags) (getStep flags) expLen curLen] }

/-- The words of a payload that are not what is expected. -/
def dataErrors (dataBuf : Nat → Byte) (v : Checking) (dtaIndex : Nat) : List Report :=
  (List.range 8).filterMap fun j =>
    if dta dataBuf dtaIndex j = v.dinit + BitVec.ofNat 32 j then none
    else some (.data v.bdesc.firstDesc (v.dlen * 32) dtaIndex j (v.dinit + BitVec.ofNat 32 j)
      (dta dataBuf dtaIndex j))

/-- One turn of `for (i = 0; i < dlen; i += 32)`. -/
def readPayload (c : WzConsts) (dataBuf : Nat → Byte) (v : Checking) (a : App) : App :=
  if (v.i : Int) < v.dlen.toInt then
    let dtaIndex := (v.dtaIndex + 32) &&& (totBufLen c - 1)
    { a with
      phase := .checking
        { v with dtaIndex := dtaIndex, dinit := v.dinit + v.dstep, i := v.i + 32 }
      printed := a.printed ++ dataErrors dataBuf v dtaIndex }
  else { a with phase := .checked v.bdesc }

/-! ## The tester at work -/

structure TestRun where
  acq : Acq
  app : App

/-- A step of the device, of the scan or of a `CONFIRM` in the driver, or one of the tester. -/
inductive TestAct
  | world (a : AcqAct)
  | app
  deriving DecidableEq, Repr

/-- The calls of the tester. -/
def isCall : AcqAct → Bool
  | .getbuf => true
  | .confirm _ _ _ => true
  | _ => false

/-- The physical address behind an offset of the mapping, whose pages are brought in by faults. -/
def userAddr (c : WzConsts) (d : Driver) (off : Nat) : Nat :=
  match d.swzMmapFault c off with
  | .inserted _ frame => frame * pageSize + off % pageSize
  | _ => off

theorem userAddr_inserted {c : WzConsts} {d : Driver} {off p frame : Nat}
    (h : d.swzMmapFault c off = .inserted p frame) :
    userAddr c d off = frame * pageSize + off % pageSize := by
  rw [userAddr, h]

/-- `data_buf` as the tester sees it. -/
def dataBuf (c : WzConsts) (d : Driver) (mem : Nat → Byte) (off : Nat) : Byte :=
  mem (userAddr c d off)

/-- The next step of the tester: a call that waits is not enabled. -/
def appStep (c : WzConsts) (bus : DmaAddr → Nat) (d : Driver) (s : TestRun) : Option TestRun :=
  match s.app.phase with
  | .getbuf =>
      match s.acq.kfifo with
      | [] => none
      | bdesc :: _ => (s.acq.step c bus .getbuf).map fun acq =>
          ⟨acq, { s.app with phase := .received bdesc, curLen := 0 }⟩
  | .received bdesc => some { s with app := readHeader c (dataBuf c d s.acq.mem) bdesc s.app }
  | .checking v => some { s with app := readPayload c (dataBuf c d s.acq.mem) v s.app }
  | .checked bdesc =>
      (s.acq.step c bus (.confirm 0 bdesc.firstDesc.toNat bdesc.lastDesc.toNat)).map fun acq =>
        ⟨acq, { s.app with phase := .confirming, totLen := s.app.totLen + s.app.curLen }⟩
  | .confirming =>
      if s.acq.confirms 0 = none then some { s with app := { s.app with phase := .getbuf } }
      else none

def step (c : WzConsts) (bus : DmaAddr → Nat) (d : Driver) (s : TestRun) :
    TestAct → Option TestRun
  | .world a =>
      if isCall a then none else (s.acq.step c bus a).map fun acq => { s with acq := acq }
  | .app => appStep c bus d s

/-- The tester right after `START`. -/
def started (d : Driver) (mem : Nat → Byte) : TestRun where
  acq := .ofDriver d mem
  app := ⟨.getbuf, true, 0, 0, []⟩

/-- The device sends these chunks, and fewer than `N` of its descriptors are completed and not
confirmed. -/
def deviceWaits (c : WzConsts) (cs : List (Chunk Byte)) (s : TestRun) : TestAct → Prop
  | .world a => leavesRoom c s.acq a ∧ sends cs s.acq a
  | .app => True

instance (c : WzConsts) (cs : List (Chunk Byte)) (s : TestRun) (a : TestAct) :
    Decidable (deviceWaits c cs s a) :=
  match a with
  | .world a => inferInstanceAs (Decidable (leavesRoom c s.acq a ∧ sends cs s.acq a))
  | .app => isTrue trivial

end Tester
end WzXdma
