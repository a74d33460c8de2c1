import Mathlib.Algebra.Group.Nat.Defs
import WzXdma.Lib.Buffered

/-!
# The AXI stream FIFO

The module `axis_fifo_64`, which `archive/axis_fifo.v` has with narrower words.  What is
stored, `{tlast, tuser, tkeep, tdata}`, is a word of any type, and the address width is the
module's parameter.  The memory is read and written through the address registers, which
follow the pointers, and behind it are the read register and the output register.

`Holds q s` says that the words of `q` are inside, the next one to leave first.
-/

namespace WzXdma
namespace Hdl
namespace AxisFifo

open Lib.Clocked

structure Inputs (α : Type) where
  rst : Bool
  inputAxisTvalid : Bool
  memWriteData : α
  outputAxisTready : Bool
  deriving DecidableEq, Repr

structure State (addrWidth : Nat) (α : Type) where
  wrPtrReg : BitVec (addrWidth + 1)
  wrAddrReg : BitVec (addrWidth + 1)
  rdPtrReg : BitVec (addrWidth + 1)
  rdAddrReg : BitVec (addrWidth + 1)
  mem : BitVec addrWidth → α
  memReadDataReg : α
  memReadDataValidReg : Bool
  outputDataReg : α
  outputAxisTvalidReg : Bool

section Definitions

variable {addrWidth : Nat} {α : Type}

/-- The highest bits differ and the others do not. -/
def full (s : State addrWidth α) : Bool :=
  decide (s.wrPtrReg.msb ≠ s.rdPtrReg.msb) &&
    decide (s.wrPtrReg.setWidth addrWidth = s.rdPtrReg.setWidth addrWidth)

def empty (s : State addrWidth α) : Bool := decide (s.wrPtrReg = s.rdPtrReg)

def inputAxisTready (s : State addrWidth α) : Bool := !full s

def write (s : State addrWidth α) (i : Inputs α) : Bool := i.inputAxisTvalid && !full s

def wrPtrNext (s : State addrWidth α) (i : Inputs α) : BitVec (addrWidth + 1) :=
  if write s i then s.wrPtrReg + 1 else s.wrPtrReg

/-- The output register is empty or is emptied at this edge. -/
def storeOutput (s : State addrWidth α) (i : Inputs α) : Bool :=
  i.outputAxisTready || !s.outputAxisTvalidReg

def read (s : State addrWidth α) (i : Inputs α) : Bool :=
  (storeOutput s i || !s.memReadDataValidReg) && !empty s

def rdPtrNext (s : State addrWidth α) (i : Inputs α) : BitVec (addrWidth + 1) :=
  if read s i then s.rdPtrReg + 1 else s.rdPtrReg

def memReadDataValidNext (s : State addrWidth α) (i : Inputs α) : Bool :=
  if storeOutput s i || !s.memReadDataValidReg then !empty s else s.memReadDataValidReg

def outputAxisTvalidNext (s : State addrWidth α) (i : Inputs α) : Bool :=
  if storeOutput s i then s.memReadDataValidReg else s.outputAxisTvalidReg

/-- One edge of `clk`.  The address registers and the data registers have no reset. -/
def next (s : State addrWidth α) (i : Inputs α) : State addrWidth α where
  wrPtrReg := if i.rst then 0 else wrPtrNext s i
  wrAddrReg := wrPtrNext s i
  rdPtrReg := if i.rst then 0 else rdPtrNext s i
  rdAddrReg := rdPtrNext s i
  mem := if write s i then Function.update s.mem (s.wrAddrReg.setWidth addrWidth) i.memWriteData
    else s.mem
  memReadDataReg := if read s i then s.mem (s.rdAddrReg.setWidth addrWidth) else s.memReadDataReg
  memReadDataValidReg := if i.rst then false else memReadDataValidNext s i
  outputDataReg := if storeOutput s i then s.memReadDataReg else s.outputDataReg
  outputAxisTvalidReg := if i.rst then false else outputAxisTvalidNext s i

/-- The word that is taken in at the end of a cycle. -/
def accepts (s : State addrWidth α) (i : Inputs α) : Option α :=
  if write s i then some i.memWriteData else none

/-- The word that leaves at the end of a cycle. -/
def emits (s : State addrWidth α) (i : Inputs α) : Option α :=
  if s.outputAxisTvalidReg && i.outputAxisTready then some s.outputDataReg else none

end Definitions

/-! ## The pointers -/

section Pointers

variable {addrWidth : Nat}

theorem ofNat_succ (w p : Nat) : BitVec.ofNat w p + 1 = BitVec.ofNat w (p + 1) := by
  rw [BitVec.ofNat_add]
  rfl

/-- The address of position `p` in the memory. -/
def slot (addrWidth p : Nat) : BitVec addrWidth := BitVec.ofNat addrWidth p

theorem setWidth_ofNat_succ (p : Nat) :
    (BitVec.ofNat (addrWidth + 1) p).setWidth addrWidth = slot addrWidth p := by
  apply BitVec.eq_of_toNat_eq
  rw [BitVec.toNat_setWidth, BitVec.toNat_ofNat, slot, BitVec.toNat_ofNat,
    Nat.mod_mod_of_dvd _ (Nat.pow_dvd_pow 2 (Nat.le_succ addrWidth))]

/-- Positions less than a memory length apart have different slots. -/
theorem slot_ne {p k : Nat} (hpos : 0 < k) (hlt : k < 2 ^ addrWidth) :
    slot addrWidth p ≠ slot addrWidth (p + k) := by
  intro heq
  have hmod := congrArg BitVec.toNat heq
  rw [slot, slot, BitVec.toNat_ofNat, BitVec.toNat_ofNat] at hmod
  have hzero := Nat.sub_mod_eq_zero_of_mod_eq hmod.symm
  rw [Nat.add_sub_cancel_left, Nat.mod_eq_of_lt hlt] at hzero
  omega

theorem msb_ofNat_succ (p : Nat) :
    (BitVec.ofNat (addrWidth + 1) p).msb = decide (2 ^ addrWidth ≤ p % (2 ^ addrWidth * 2)) := by
  rw [BitVec.msb_eq_decide, BitVec.toNat_ofNat, Nat.add_sub_cancel, Nat.pow_succ]

/-- A memory length further the highest bit of the pointer is the other one. -/
theorem msb_ne_of_round (r : Nat) :
    (BitVec.ofNat (addrWidth + 1) (r + 2 ^ addrWidth)).msb ≠
      (BitVec.ofNat (addrWidth + 1) r).msb := by
  have hpos : 0 < 2 ^ addrWidth := Nat.two_pow_pos addrWidth
  rw [msb_ofNat_succ, msb_ofNat_succ, Nat.add_mod]
  generalize 2 ^ addrWidth = p at hpos
  rw [Nat.mod_eq_of_lt (show p < p * 2 by omega)]
  have hlt := Nat.mod_lt r (show 0 < p * 2 by omega)
  generalize r % (p * 2) = a at hlt
  rcases Nat.lt_or_ge a p with ha | ha
  · rw [Nat.mod_eq_of_lt (by omega), decide_eq_true (by omega), decide_eq_false (by omega)]
    decide
  · rw [Nat.mod_eq_sub_mod (by omega), Nat.mod_eq_of_lt (by omega), decide_eq_false (by omega),
      decide_eq_true ha]
    decide

/-- Pointers that agree but for the round belong to positions a memory length apart. -/
theorem full_iff {r n : Nat} (hn : n ≤ 2 ^ addrWidth) :
    ((BitVec.ofNat (addrWidth + 1) (r + n)).msb ≠ (BitVec.ofNat (addrWidth + 1) r).msb ∧
      slot addrWidth (r + n) = slot addrWidth r) ↔ n = 2 ^ addrWidth := by
  constructor
  · rintro ⟨hmsb, hslot⟩
    rcases Nat.eq_zero_or_pos n with rfl | hpos
    · exact absurd rfl hmsb
    · rcases Nat.lt_or_ge n (2 ^ addrWidth) with hlt | hge
      · exact absurd hslot.symm (slot_ne hpos hlt)
      · exact Nat.le_antisymm hn hge
  · rintro rfl
    refine ⟨msb_ne_of_round r, BitVec.eq_of_toNat_eq ?_⟩
    rw [slot, slot, BitVec.toNat_ofNat, BitVec.toNat_ofNat, Nat.add_mod_right]

/-- Pointers agree when nothing is stored. -/
theorem empty_iff {r n : Nat} (hn : n ≤ 2 ^ addrWidth) :
    BitVec.ofNat (addrWidth + 1) (r + n) = BitVec.ofNat (addrWidth + 1) r ↔ n = 0 := by
  constructor
  · intro heq
    rcases Nat.eq_zero_or_pos n with rfl | hpos
    · rfl
    · have hlt : n < 2 ^ (addrWidth + 1) := by
        rw [Nat.pow_succ]
        omega
      exact absurd heq.symm (slot_ne hpos hlt)
  · rintro rfl
    rfl

end Pointers

/-! ## What is inside -/

section Content

variable {addrWidth : Nat} {α : Type}

/-- The memory has `n` words, from position `r` on. -/
structure Stored (r n : Nat) (s : State addrWidth α) : Prop where
  wrPtr : s.wrPtrReg = BitVec.ofNat (addrWidth + 1) (r + n)
  rdPtr : s.rdPtrReg = BitVec.ofNat (addrWidth + 1) r
  wrAddr : s.wrAddrReg = s.wrPtrReg
  rdAddr : s.rdAddrReg = s.rdPtrReg
  count_le : n ≤ 2 ^ addrWidth

/-- A register that may hold a word. -/
def ifValid (valid : Bool) (word : α) : List α := if valid then [word] else []

/-- The words inside: in the output register, in the read register and in the memory. -/
def content (s : State addrWidth α) (r n : Nat) : List α :=
  ifValid s.outputAxisTvalidReg s.outputDataReg ++
    (ifValid s.memReadDataValidReg s.memReadDataReg ++ window s.mem (slot addrWidth) r n)

def Holds (q : List α) (s : State addrWidth α) : Prop :=
  ∃ r n, Stored r n s ∧ content s r n = q

variable {s : State addrWidth α} {i : Inputs α} {r n : Nat}

theorem Stored.full_iff (h : Stored r n s) : full s = true ↔ n = 2 ^ addrWidth := by
  rw [full, Bool.and_eq_true, decide_eq_true_iff, decide_eq_true_iff, h.wrPtr, h.rdPtr,
    setWidth_ofNat_succ, setWidth_ofNat_succ]
  exact AxisFifo.full_iff h.count_le

theorem Stored.empty_iff (h : Stored r n s) : empty s = true ↔ n = 0 := by
  rw [empty, decide_eq_true_iff, h.wrPtr, h.rdPtr]
  exact AxisFifo.empty_iff h.count_le

theorem Stored.lt_of_write (h : Stored r n s) (hw : write s i = true) : n < 2 ^ addrWidth := by
  rw [write, Bool.and_eq_true, Bool.not_eq_true'] at hw
  have hne : n ≠ 2 ^ addrWidth := by
    intro heq
    rw [h.full_iff.mpr heq] at hw
    cases hw.2
  exact Nat.lt_of_le_of_ne h.count_le hne

theorem Stored.pos_of_read (h : Stored r n s) (hr : read s i = true) : 0 < n := by
  rw [read, Bool.and_eq_true, Bool.not_eq_true'] at hr
  refine Nat.pos_of_ne_zero fun heq => ?_
  rw [h.empty_iff.mpr heq] at hr
  cases hr.2

theorem ofNat_add_toNat (p : Nat) (b : Bool) :
    (if b then BitVec.ofNat (addrWidth + 1) p + 1 else BitVec.ofNat (addrWidth + 1) p) =
      BitVec.ofNat (addrWidth + 1) (p + b.toNat) := by
  cases b with
  | false => rfl
  | true => exact ofNat_succ _ p

theorem Stored.wrPtrNext (h : Stored r n s) :
    wrPtrNext s i = BitVec.ofNat (addrWidth + 1) (r + n + (write s i).toNat) := by
  rw [AxisFifo.wrPtrNext, h.wrPtr, ofNat_add_toNat]

theorem Stored.rdPtrNext (h : Stored r n s) :
    rdPtrNext s i = BitVec.ofNat (addrWidth + 1) (r + (read s i).toNat) := by
  rw [AxisFifo.rdPtrNext, h.rdPtr, ofNat_add_toNat]

theorem Stored.toNat_read_le (h : Stored r n s) : (read s i).toNat ≤ n := by
  cases hr : read s i with
  | false => exact Nat.zero_le n
  | true => exact h.pos_of_read hr

/-- The pointers and the address registers after an edge. -/
theorem Stored.next (h : Stored r n s) (hrst : i.rst = false) :
    Stored (r + (read s i).toNat) (n - (read s i).toNat + (write s i).toNat)
      (AxisFifo.next s i) := by
  have hle := @Stored.toNat_read_le _ _ _ i _ _ h
  have hpos : r + n + (write s i).toNat =
      r + (read s i).toNat + (n - (read s i).toNat + (write s i).toNat) := by omega
  refine ⟨?_, ?_, ?_, ?_, ?_⟩
  · show (if i.rst = true then 0 else AxisFifo.wrPtrNext s i) = _
    rw [hrst, if_neg Bool.false_ne_true, h.wrPtrNext, hpos]
  · show (if i.rst = true then 0 else AxisFifo.rdPtrNext s i) = _
    rw [hrst, if_neg Bool.false_ne_true, h.rdPtrNext]
  · show AxisFifo.wrPtrNext s i = if i.rst = true then 0 else AxisFifo.wrPtrNext s i
    rw [hrst, if_neg Bool.false_ne_true]
  · show AxisFifo.rdPtrNext s i = if i.rst = true then 0 else AxisFifo.rdPtrNext s i
    rw [hrst, if_neg Bool.false_ne_true]
  · cases hw : write s i with
    | false =>
        have := h.count_le
        show n - _ + 0 ≤ _
        omega
    | true =>
        have := h.lt_of_write hw
        show n - _ + 1 ≤ _
        omega

/-- An edge appends the accepted word to the memory. -/
theorem Stored.window_write (h : Stored r n s) :
    window (AxisFifo.next s i).mem (slot addrWidth) r (n + (write s i).toNat) =
      window s.mem (slot addrWidth) r n ++ (accepts s i).toList := by
  have hmem : (AxisFifo.next s i).mem =
      if write s i then Function.update s.mem (slot addrWidth (r + n)) i.memWriteData
      else s.mem := by
    show (if write s i then Function.update s.mem (s.wrAddrReg.setWidth addrWidth) i.memWriteData
      else s.mem) = _
    rw [h.wrAddr, h.wrPtr, setWidth_ofNat_succ]
  cases hw : write s i with
  | false =>
      rw [hmem, hw, if_neg Bool.false_ne_true, accepts, hw, if_neg Bool.false_ne_true,
        Option.toList_none, List.append_nil]
      rfl
  | true =>
      rw [hmem, hw, if_pos rfl, accepts, hw, if_pos rfl, Option.toList_some]
      refine window_push fun k hk => ?_
      have hlt := h.lt_of_write hw
      have hkn : r + n = r + k + (n - k) := by omega
      rw [hkn]
      exact slot_ne (by omega) (by omega)

/-- The words that leave the memory and those that stay are those that were there and the
accepted one. -/
theorem Stored.window_next (h : Stored r n s) :
    ifValid (read s i) (s.mem (slot addrWidth r)) ++
        window (AxisFifo.next s i).mem (slot addrWidth) (r + (read s i).toNat)
          (n - (read s i).toNat + (write s i).toNat) =
      window s.mem (slot addrWidth) r n ++ (accepts s i).toList := by
  have hle := @Stored.toNat_read_le _ _ _ i _ _ h
  have hcount : n - (read s i).toNat + (write s i).toNat =
      n + (write s i).toNat - (read s i).toNat := by omega
  rw [hcount, ← drop_window, h.window_write]
  cases hr : read s i with
  | false => rfl
  | true =>
      obtain ⟨m, rfl⟩ : ∃ m, n = m + 1 := ⟨n - 1, by have := h.pos_of_read hr; omega⟩
      rw [window_pop]
      rfl

theorem Stored.memReadData (h : Stored r n s) :
    (AxisFifo.next s i).memReadDataReg =
      if read s i then s.mem (slot addrWidth r) else s.memReadDataReg := by
  show (if read s i then s.mem (s.rdAddrReg.setWidth addrWidth) else _) = _
  rw [h.rdAddr, h.rdPtr, setWidth_ofNat_succ]

/-- A read register that is free takes what leaves the memory. -/
theorem Stored.refill (h : Stored r n s) (hrst : i.rst = false)
    (hfree : (storeOutput s i || !s.memReadDataValidReg) = true) :
    ifValid (AxisFifo.next s i).memReadDataValidReg (AxisFifo.next s i).memReadDataReg =
      ifValid (read s i) (s.mem (slot addrWidth r)) := by
  have hread : read s i = !empty s := by rw [read, hfree, Bool.true_and]
  have hvalid : (AxisFifo.next s i).memReadDataValidReg = read s i := by
    show (if i.rst = true then false else memReadDataValidNext s i) = _
    rw [hrst, if_neg Bool.false_ne_true, memReadDataValidNext, if_pos hfree, hread]
  rw [hvalid, h.memReadData]
  cases hr : read s i with
  | false => rfl
  | true => rfl

/-- A read register that is in use stays as it is. -/
theorem next_kept (hrst : i.rst = false)
    (hfree : (storeOutput s i || !s.memReadDataValidReg) = false) :
    read s i = false ∧
      ifValid (AxisFifo.next s i).memReadDataValidReg (AxisFifo.next s i).memReadDataReg =
        ifValid s.memReadDataValidReg s.memReadDataReg := by
  have hread : read s i = false := by rw [read, hfree, Bool.false_and]
  refine ⟨hread, ?_⟩
  show ifValid (if i.rst = true then false else memReadDataValidNext s i)
    (if read s i then _ else _) = _
  rw [hrst, if_neg Bool.false_ne_true, memReadDataValidNext, hfree, if_neg Bool.false_ne_true,
    hread, if_neg Bool.false_ne_true]

/-- An output register that is free takes the read register, and gives out its own word. -/
theorem next_output (hrst : i.rst = false) (hstore : storeOutput s i = true) :
    ifValid (next s i).outputAxisTvalidReg (next s i).outputDataReg =
        ifValid s.memReadDataValidReg s.memReadDataReg ∧
      (emits s i).toList = ifValid s.outputAxisTvalidReg s.outputDataReg := by
  constructor
  · show ifValid (if i.rst = true then false else outputAxisTvalidNext s i)
      (if storeOutput s i then _ else _) = _
    rw [hrst, if_neg Bool.false_ne_true, outputAxisTvalidNext, if_pos hstore, if_pos hstore]
  · rw [storeOutput, Bool.or_eq_true, Bool.not_eq_true'] at hstore
    rw [emits]
    cases hv : s.outputAxisTvalidReg with
    | false => rfl
    | true =>
        rw [hv] at hstore
        rw [hstore.resolve_right (by decide)]
        rfl

/-- A word that is not taken stays in the output register. -/
theorem next_stalled (hrst : i.rst = false) (hstore : storeOutput s i = false) :
    (next s i).outputAxisTvalidReg = s.outputAxisTvalidReg ∧
      (next s i).outputDataReg = s.outputDataReg ∧ emits s i = none := by
  refine ⟨?_, ?_, ?_⟩
  · show (if i.rst = true then false else outputAxisTvalidNext s i) = _
    rw [hrst, if_neg Bool.false_ne_true, outputAxisTvalidNext, hstore,
      if_neg Bool.false_ne_true]
  · show (if storeOutput s i then s.memReadDataReg else s.outputDataReg) = _
    rw [hstore, if_neg Bool.false_ne_true]
  · rw [storeOutput, Bool.or_eq_false_iff] at hstore
    rw [emits, hstore.1, Bool.and_false, if_neg Bool.false_ne_true]

/-- An edge changes what is inside as a queue does. -/
theorem Stored.content_next (h : Stored r n s) (hrst : i.rst = false) :
    content s r n ++ (accepts s i).toList =
      (emits s i).toList ++ content (AxisFifo.next s i) (r + (read s i).toNat)
        (n - (read s i).toNat + (write s i).toNat) := by
  have hmem := @Stored.window_next _ _ _ i _ _ h
  cases hstore : storeOutput s i with
  | true =>
      obtain ⟨hout, hemits⟩ := next_output hrst hstore
      have hrefill := h.refill hrst (by rw [hstore, Bool.true_or])
      rw [content, content, hemits, hout, hrefill, hmem]
      simp only [List.append_assoc]
  | false =>
      obtain ⟨hvalid, hdata, hemits⟩ := next_stalled hrst hstore
      rw [content, content, hemits, hvalid, hdata, Option.toList_none, List.nil_append]
      simp only [List.append_assoc]
      congr 1
      cases hv : s.memReadDataValidReg with
      | false =>
          have hrefill := h.refill hrst (by rw [hv, Bool.not_false, Bool.or_true])
          rw [hrefill, hmem]
          rfl
      | true =>
          obtain ⟨hread, hkept⟩ := next_kept hrst (s := s) (i := i) (by rw [hstore, hv]; rfl)
          rw [hkept, hv]
          congr 1
          rw [← hmem, hread]
          rfl

theorem queues : Queues (@next addrWidth α) accepts emits (fun i => i.rst = false) Holds := by
  rintro q s i ⟨r, n, h, rfl⟩ hrst
  exact ⟨_, ⟨_, _, h.next hrst, rfl⟩, h.content_next hrst⟩

theorem length_ifValid (valid : Bool) (word : α) :
    (ifValid valid word).length = valid.toNat := by
  cases valid <;> rfl

theorem length_content :
    (content s r n).length = s.outputAxisTvalidReg.toNat + (s.memReadDataValidReg.toNat + n) := by
  rw [content, List.length_append, List.length_append, length_ifValid, length_ifValid,
    length_window]

/-- The FIFO is ready to accept unless the memory is full. -/
theorem Holds.ready_iff {q : List α} (h : Holds q s) :
    inputAxisTready s = true ↔
      q.length < 2 ^ addrWidth + s.memReadDataValidReg.toNat + s.outputAxisTvalidReg.toNat := by
  obtain ⟨r, n, hst, rfl⟩ := h
  have hle := hst.count_le
  rw [length_content, inputAxisTready, Bool.not_eq_true', ← Bool.not_eq_true, hst.full_iff]
  omega

theorem Holds.length_le {q : List α} (h : Holds q s) :
    q.length ≤ 2 ^ addrWidth + s.memReadDataValidReg.toNat + s.outputAxisTvalidReg.toNat := by
  obtain ⟨r, n, hst, rfl⟩ := h
  have hle := hst.count_le
  rw [length_content]
  omega

end Content

/-! ## Reset -/

section Reset

variable {addrWidth : Nat} {α : Type} {s : State addrWidth α} {i : Inputs α}

/-- Both pointers are 0 and no register behind the memory holds a word. -/
structure Cleared (s : State addrWidth α) : Prop where
  wrPtr : s.wrPtrReg = 0
  rdPtr : s.rdPtrReg = 0
  memReadValid : s.memReadDataValidReg = false
  outputTvalid : s.outputAxisTvalidReg = false

theorem cleared_of_rst (hrst : i.rst = true) : Cleared (next s i) := by
  constructor
  · show (if i.rst = true then 0 else _) = _
    rw [hrst, if_pos rfl]
  · show (if i.rst = true then 0 else _) = _
    rw [hrst, if_pos rfl]
  · show (if i.rst = true then false else _) = _
    rw [hrst, if_pos rfl]
  · show (if i.rst = true then false else _) = _
    rw [hrst, if_pos rfl]

theorem Cleared.full (h : Cleared s) : full s = false := by
  rw [AxisFifo.full, h.wrPtr, h.rdPtr, decide_eq_false (fun hne => hne rfl), Bool.false_and]

theorem Cleared.read (h : Cleared s) : read s i = false := by
  rw [AxisFifo.read, empty, h.wrPtr, h.rdPtr, decide_eq_true rfl, Bool.not_true, Bool.and_false]

theorem Cleared.write (h : Cleared s) : write s i = i.inputAxisTvalid := by
  rw [AxisFifo.write, h.full, Bool.not_false, Bool.and_true]

theorem Cleared.emits (h : Cleared s) : emits s i = none := by
  rw [AxisFifo.emits, h.outputTvalid, Bool.false_and, if_neg Bool.false_ne_true]

theorem Cleared.accepts (h : Cleared s) :
    accepts s i = if i.inputAxisTvalid then some i.memWriteData else none := by
  rw [AxisFifo.accepts, h.write]

/-- The address registers follow the pointers that a cleared FIFO would go on with. -/
theorem Cleared.addr (h : Cleared s) :
    (next s i).wrAddrReg = BitVec.ofNat (addrWidth + 1) i.inputAxisTvalid.toNat ∧
      (next s i).rdAddrReg = 0 := by
  constructor
  · show wrPtrNext s i = _
    rw [wrPtrNext, h.write, h.wrPtr]
    cases i.inputAxisTvalid with
    | false => rfl
    | true => exact BitVec.zero_add _
  · show rdPtrNext s i = 0
    rw [rdPtrNext, h.read, if_neg Bool.false_ne_true, h.rdPtr]

/-- With its address registers at 0 a cleared FIFO holds nothing. -/
theorem Cleared.holds (h : Cleared s) (hwr : s.wrAddrReg = 0) (hrd : s.rdAddrReg = 0) :
    Holds [] s := by
  refine ⟨0, 0, ⟨h.wrPtr, h.rdPtr, hwr.trans h.wrPtr.symm, hrd.trans h.rdPtr.symm,
    Nat.zero_le _⟩, ?_⟩
  rw [content, h.outputTvalid, h.memReadValid]
  rfl

/-- Nothing leaves a cleared FIFO. -/
theorem Cleared.next_regs (h : Cleared s) :
    (next s i).rdPtrReg = 0 ∧ (next s i).memReadDataValidReg = false ∧
      (next s i).outputAxisTvalidReg = false := by
  refine ⟨?_, ?_, ?_⟩
  · show (if i.rst = true then 0 else rdPtrNext s i) = 0
    rw [rdPtrNext, h.read, if_neg Bool.false_ne_true, h.rdPtr]
    exact ite_self _
  · show (if i.rst = true then false else memReadDataValidNext s i) = false
    rw [memReadDataValidNext, h.memReadValid, empty, h.wrPtr, h.rdPtr, decide_eq_true rfl,
      Bool.not_false, Bool.or_true, if_pos rfl, Bool.not_true]
    exact ite_self _
  · show (if i.rst = true then false else outputAxisTvalidNext s i) = false
    rw [outputAxisTvalidNext, h.memReadValid, h.outputTvalid, ite_self]
    exact ite_self _

theorem Cleared.next_wrPtr (h : Cleared s) (hrst : i.rst = false) :
    (next s i).wrPtrReg = BitVec.ofNat (addrWidth + 1) i.inputAxisTvalid.toNat := by
  show (if i.rst = true then 0 else wrPtrNext s i) = _
  rw [hrst, if_neg Bool.false_ne_true]
  exact (@Cleared.addr _ _ _ i h).1

/-- A cleared FIFO whose write address is one too far, when no word comes. -/
theorem Cleared.next_idle (h : Cleared s) (hrst : i.rst = false)
    (hvalid : i.inputAxisTvalid = false) : Holds [] (next s i) := by
  obtain ⟨hwr, hrd⟩ := @Cleared.addr _ _ _ i h
  obtain ⟨hptr, hread, hout⟩ := @Cleared.next_regs _ _ _ i h
  have hwrPtr := h.next_wrPtr hrst
  rw [hvalid] at hwr hwrPtr
  exact Cleared.holds ⟨hwrPtr, hptr, hread, hout⟩ hwr hrd

/-- When a word comes it is stored behind the place it is read from, where the memory still has
what it had before. -/
theorem Cleared.next_misplaced (h : Cleared s) (hwidth : 0 < addrWidth) (hrst : i.rst = false)
    (hwr : s.wrAddrReg = 1) (hvalid : i.inputAxisTvalid = true) : Holds [s.mem 0] (next s i) := by
  obtain ⟨hwr', hrd⟩ := @Cleared.addr _ _ _ i h
  obtain ⟨hptr, hread, hout⟩ := @Cleared.next_regs _ _ _ i h
  have hwrPtr := h.next_wrPtr hrst
  rw [hvalid] at hwr' hwrPtr
  have hmem : (next s i).mem (slot addrWidth 0) = s.mem 0 := by
    show (if AxisFifo.write s i then
      Function.update s.mem (s.wrAddrReg.setWidth addrWidth) i.memWriteData else s.mem) 0 = _
    rw [h.write, hvalid, if_pos rfl, hwr]
    have hone : (1 : BitVec (addrWidth + 1)).setWidth addrWidth = slot addrWidth (0 + 1) :=
      setWidth_ofNat_succ 1
    rw [hone]
    exact Function.update_of_ne (slot_ne Nat.one_pos (Nat.one_lt_two_pow
      (Nat.pos_iff_ne_zero.mp hwidth))) ..
  refine ⟨0, 1, ⟨hwrPtr, hptr, hwr'.trans hwrPtr.symm, hrd.trans hptr.symm,
    Nat.one_le_two_pow⟩, ?_⟩
  rw [content, hread, hout, window_pop, hmem]
  rfl

end Reset

end AxisFifo
end Hdl
end WzXdma
