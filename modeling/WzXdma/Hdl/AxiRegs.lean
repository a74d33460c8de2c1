import Mathlib.Logic.Function.Basic
import WzXdma.Consts

/-!
# The AXI4-Lite register file

`pcie_regs_axi4_lite_v1_0` as a clocked design.  Every `always @(posedge S_AXI_ACLK)`
block of the source is one definition that gives the next value of the registers the
block assigns, and `next` puts them side by side.  The write decoder and the read decoder
are the tables of the two `case` statements in the order of the source, where the first
label that fits is taken.  `S_AXI_WSTRB` is not an input here: the source does not use it.
-/

namespace WzXdma
namespace Hdl
namespace AxiRegs

/-- The registers a bus master can write. -/
inductive Reg
  | slvReg10
  | slvReg11
  | slvReg12
  | slvReg13
  | slvReg14
  | devScratchReg
  | slvRegs (i : Nat)
  deriving DecidableEq, Repr

/-- The input ports. -/
structure Inputs where
  aresetn : Bool
  awaddr : BitVec 8
  awvalid : Bool
  wdata : Word
  wvalid : Bool
  bready : Bool
  araddr : BitVec 8
  arvalid : Bool
  rready : Bool

structure State where
  axiAwaddr : BitVec 8
  axiAwready : Bool
  axiWready : Bool
  axiBresp : BitVec 2
  axiBvalid : Bool
  axiAraddr : BitVec 8
  axiArready : Bool
  axiRdata : Word
  axiRresp : BitVec 2
  axiRvalid : Bool
  regs : Reg → Word

/-- `[ADDR_LSB+OPT_MEM_ADDR_BITS:ADDR_LSB]`, the word index in a byte address. -/
def wordIndex (addr : BitVec 8) : BitVec 6 :=
  addr.extractLsb' 2 6

/-! ## The values of `shapi_stdrt_dev_inc.vh` -/

def devMagic : BitVec 16 := 0x5348
def devMajor : BitVec 8 := 0x01
def devMinor : BitVec 8 := 0x00
def devNextAddr : BitVec 32 := 0x0
def devHwVendor : BitVec 16 := 0x10EE
def devHwId : BitVec 16 := 0x0070
def devFwVendor : BitVec 16 := 0x1570
def devFwId : BitVec 16 := 0x1333
def devFwPatch : BitVec 16 := 0x0001
def devFwMinor : BitVec 8 := 0x01
def devFwMajor : BitVec 8 := 0x00
def devTstamp : BitVec 32 := 1540481158
def devName1 : BitVec 32 := 0x74657374
def devName2 : BitVec 32 := 0x58444D41
def devName3 : BitVec 32 := 0x676E696D
def devEndianCapab : BitVec 1 := 0
def devRtmCapab : BitVec 1 := 0
def devSoftRstCapab : BitVec 1 := 0
def devFullRstCapab : BitVec 1 := 0

/-! ## The decoders -/

/-- The `case` of the write process.  The last two labels are those of registers 46 and
47 once more. -/
def writeDecoder : List (BitVec 6 × Reg) :=
  [
   (0x0A, .slvReg10), (0x0B, .slvReg11), (0x0C, .slvReg12), (0x0D, .slvReg13),
   (0x0E, .slvReg14), (0x0F, .devScratchReg), (0x10, .slvRegs 16), (0x11, .slvRegs 17),
   (0x12, .slvRegs 18), (0x13, .slvRegs 19), (0x14, .slvRegs 20), (0x15, .slvRegs 21),
   (0x16, .slvRegs 22), (0x17, .slvRegs 23), (0x18, .slvRegs 24), (0x19, .slvRegs 25),
   (0x1A, .slvRegs 26), (0x1B, .slvRegs 27), (0x1C, .slvRegs 28), (0x1D, .slvRegs 29),
   (0x1E, .slvRegs 30), (0x1F, .slvRegs 31), (0x20, .slvRegs 32), (0x21, .slvRegs 33),
   (0x22, .slvRegs 34), (0x23, .slvRegs 35), (0x24, .slvRegs 36), (0x25, .slvRegs 37),
   (0x26, .slvRegs 38), (0x27, .slvRegs 39), (0x28, .slvRegs 40), (0x29, .slvRegs 41),
   (0x2A, .slvRegs 42), (0x2B, .slvRegs 43), (0x2C, .slvRegs 44), (0x2D, .slvRegs 45),
   (0x2E, .slvRegs 46), (0x2F, .slvRegs 47), (0x30, .slvRegs 48), (0x31, .slvRegs 49),
   (0x32, .slvRegs 50), (0x33, .slvRegs 51), (0x34, .slvRegs 52), (0x35, .slvRegs 53),
   (0x36, .slvRegs 54), (0x37, .slvRegs 55), (0x38, .slvRegs 56), (0x39, .slvRegs 57),
   (0x3A, .slvRegs 58), (0x3B, .slvRegs 59), (0x3C, .slvRegs 60), (0x3D, .slvRegs 61),
   (0x2E, .slvRegs 62), (0x2F, .slvRegs 63)
  ]

/-- What an entry of the read decoder puts on `reg_data_out`. -/
inductive Source
  | const (v : Word)
  | reg (r : Reg)
  deriving DecidableEq

/-- The `case` of the read multiplexer. -/
def readDecoder : List (BitVec 6 × Source) :=
  [
   (0x00, .const (devMagic ++ devMajor ++ devMinor)),
   (0x01, .const devNextAddr),
   (0x02, .const (devHwId ++ devHwVendor)),
   (0x03, .const (devFwId ++ devFwVendor)),
   (0x04, .const (devFwMajor ++ devFwMinor ++ devFwPatch)),
   (0x05, .const devTstamp),
   (0x06, .const devName1),
   (0x07, .const devName2),
   (0x08, .const devName3),
   (0x09, .const (devFullRstCapab ++ devSoftRstCapab ++ 0#28 ++ devRtmCapab ++ devEndianCapab)),
   (0x0A, .reg .slvReg10), (0x0B, .reg .slvReg11), (0x0C, .reg .slvReg12),
   (0x0D, .reg .slvReg13), (0x0E, .reg .slvReg14), (0x0F, .reg .devScratchReg),
   (0x10, .reg (.slvRegs 16)), (0x11, .reg (.slvRegs 17)), (0x12, .reg (.slvRegs 18)),
   (0x13, .reg (.slvRegs 19)), (0x14, .reg (.slvRegs 20)), (0x15, .reg (.slvRegs 21)),
   (0x16, .reg (.slvRegs 22)), (0x17, .reg (.slvRegs 23)), (0x18, .reg (.slvRegs 24)),
   (0x19, .reg (.slvRegs 25)), (0x1A, .reg (.slvRegs 26)), (0x1B, .reg (.slvRegs 27)),
   (0x1C, .reg (.slvRegs 28)), (0x1D, .reg (.slvRegs 29)), (0x1E, .reg (.slvRegs 30)),
   (0x1F, .reg (.slvRegs 31)), (0x20, .reg (.slvRegs 32)), (0x21, .reg (.slvRegs 33)),
   (0x22, .reg (.slvRegs 34)), (0x23, .reg (.slvRegs 35)), (0x24, .reg (.slvRegs 36)),
   (0x25, .reg (.slvRegs 37)), (0x26, .reg (.slvRegs 38)), (0x27, .reg (.slvRegs 39)),
   (0x28, .reg (.slvRegs 40)), (0x29, .reg (.slvRegs 41)), (0x2A, .reg (.slvRegs 42)),
   (0x2B, .reg (.slvRegs 43)), (0x2C, .reg (.slvRegs 44)), (0x2D, .reg (.slvRegs 45)),
   (0x2E, .reg (.slvRegs 46)), (0x2F, .reg (.slvRegs 47)), (0x30, .reg (.slvRegs 48)),
   (0x31, .reg (.slvRegs 49)), (0x32, .reg (.slvRegs 50)), (0x33, .reg (.slvRegs 51)),
   (0x34, .reg (.slvRegs 52)), (0x35, .reg (.slvRegs 53)), (0x36, .reg (.slvRegs 54)),
   (0x37, .reg (.slvRegs 55)), (0x38, .reg (.slvRegs 56)), (0x39, .reg (.slvRegs 57)),
   (0x3A, .reg (.slvRegs 58)), (0x3B, .reg (.slvRegs 59)), (0x3C, .reg (.slvRegs 60)),
   (0x3D, .reg (.slvRegs 61)), (0x3E, .reg (.slvRegs 62)), (0x3F, .reg (.slvRegs 63))
  ]

/-- The value of the read multiplexer at a word index. -/
def State.regAt (s : State) (index : BitVec 6) : Word :=
  match readDecoder.lookup index with
  | some (.const v) => v
  | some (.reg r) => s.regs r
  | none => 0

def regDataOut (s : State) : Word :=
  s.regAt (wordIndex s.axiAraddr)

def slvRegWren (s : State) (i : Inputs) : Bool :=
  s.axiWready && i.wvalid && s.axiAwready && i.awvalid

def slvRegRden (s : State) (i : Inputs) : Bool :=
  s.axiArready && i.arvalid && !s.axiRvalid

/-! ## The processes -/

def nextAwready (s : State) (i : Inputs) : Bool :=
  if i.aresetn = false then false
  else if !s.axiAwready && i.awvalid && i.wvalid then true else false

def nextAwaddr (s : State) (i : Inputs) : BitVec 8 :=
  if i.aresetn = false then 0
  else if !s.axiAwready && i.awvalid && i.wvalid then i.awaddr else s.axiAwaddr

def nextWready (s : State) (i : Inputs) : Bool :=
  if i.aresetn = false then false
  else if !s.axiWready && i.wvalid && i.awvalid then true else false

def nextRegs (s : State) (i : Inputs) : Reg → Word :=
  if i.aresetn = false then fun _ => 0
  else if slvRegWren s i then
    match writeDecoder.lookup (wordIndex s.axiAwaddr) with
    | some r => Function.update s.regs r i.wdata
    | none => s.regs
  else s.regs

/-- `axi_bvalid` and `axi_bresp`. -/
def nextB (s : State) (i : Inputs) : Bool × BitVec 2 :=
  if i.aresetn = false then (false, 0)
  else if s.axiAwready && i.awvalid && !s.axiBvalid && s.axiWready && i.wvalid then (true, 0)
  else if i.bready && s.axiBvalid then (false, s.axiBresp)
  else (s.axiBvalid, s.axiBresp)

/-- `axi_arready` and `axi_araddr`. -/
def nextAr (s : State) (i : Inputs) : Bool × BitVec 8 :=
  if i.aresetn = false then (false, 0)
  else if !s.axiArready && i.arvalid then (true, i.araddr)
  else (false, s.axiAraddr)

/-- `axi_rvalid` and `axi_rresp`. -/
def nextR (s : State) (i : Inputs) : Bool × BitVec 2 :=
  if i.aresetn = false then (false, 0)
  else if s.axiArready && i.arvalid && !s.axiRvalid then (true, 0)
  else if s.axiRvalid && i.rready then (false, s.axiRresp)
  else (s.axiRvalid, s.axiRresp)

def nextRdata (s : State) (i : Inputs) : Word :=
  if i.aresetn = false then 0
  else if slvRegRden s i then regDataOut s else s.axiRdata

/-- One edge of `S_AXI_ACLK`. -/
def next (s : State) (i : Inputs) : State where
  axiAwaddr := nextAwaddr s i
  axiAwready := nextAwready s i
  axiWready := nextWready s i
  axiBresp := (nextB s i).2
  axiBvalid := (nextB s i).1
  axiAraddr := (nextAr s i).2
  axiArready := (nextAr s i).1
  axiRdata := nextRdata s i
  axiRresp := (nextR s i).2
  axiRvalid := (nextR s i).1
  regs := nextRegs s i

/-- The output port `control_reg`. -/
def State.controlReg (s : State) : Word :=
  s.regs .devScratchReg

end AxiRegs
end Hdl
end WzXdma
