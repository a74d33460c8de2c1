import WzXdma.Hdl.Pacing
import WzXdma.Lib.Clocked
import WzXdma.Lib.Fields

/-!
# The source of packets of random length

The entity `axi4s_src3` of `axi4s_src3.vhd` and the way `tester2.c` reads its packets.  The length, the
step and the initial value of a packet come from the shift register, whose contents are arbitrary when
a run begins.  `old_start` is never read and is left out, and `tkeep` is constant.

`wrd_count` is two ahead of the beats that were transferred: while beat `k` is offered it is `k + 2`.
-/

namespace WzXdma
namespace Hdl
namespace RandomSource

open Lib.Clocked Lib.Fields Pacing

/-- `T_SRC_STATE` -/
inductive SrcState
  | idle
  | startHead
  | startPkt
  | sendPkt
  deriving DecidableEq, Repr

structure Inputs where
  resetn : Bool
  tready : Bool
  start : Bool
  deriving DecidableEq, Repr

structure State where
  srcState : SrcState
  pktStep : Nat
  sData : BitVec 256
  cntData : BitVec 32
  wrdCount : Nat
  pktLen : Nat
  initData : Nat
  shiftReg : BitVec 49
  ackPkt : Bool
  tvalid : Bool
  tlast : Bool
  /-- `del_cnt` and `start_pkt` -/
  pacing : Pace
  deriving DecidableEq, Repr

/-- `PKT_DEL` -/
def pktDel : Nat := 10

/-- The header beat. -/
def header (initData pktStep pktLen : Nat) : BitVec 256 :=
  0#192 ++ BitVec.ofNat 32 pktLen ++ 0#20 ++ BitVec.ofNat 4 pktStep ++ BitVec.ofNat 8 initData

/-- The eight words of a data beat, `cnt_data + i`. -/
def words (cntData : BitVec 32) : BitVec 256 :=
  (cntData + 7) ++ (cntData + 6) ++ (cntData + 5) ++ (cntData + 4) ++ (cntData + 3) ++
    (cntData + 2) ++ (cntData + 1) ++ (cntData + 0)

/-- Process `p1`. -/
def p1 (s : State) (i : Inputs) : State :=
  if i.resetn = false then
    { s with sData := 0, tvalid := false, tlast := false, ackPkt := false, srcState := .idle }
  else
    let s := { s with ackPkt := false }
    match s.srcState with
    | .idle =>
        if s.pacing.startPkt then
          { s with
            pktLen := (s.shiftReg.extractLsb' 12 19).toNat + 160000
            pktStep := (s.shiftReg.extractLsb' 8 4).toNat
            initData := (s.shiftReg.extractLsb' 0 8).toNat
            srcState := .startHead }
        else s
    | .startHead =>
        { s with
          sData := header s.initData s.pktStep s.pktLen
          cntData := BitVec.ofNat 32 s.initData
          wrdCount := 2
          tvalid := true
          tlast := false
          ackPkt := true
          srcState := .sendPkt }
    | .sendPkt =>
        if i.tready then
          if s.wrdCount ≤ s.pktLen then
            { s with
              wrdCount := s.wrdCount + 1
              cntData := s.cntData + BitVec.ofNat 32 s.pktStep
              sData := words s.cntData
              tlast := if s.wrdCount = s.pktLen then true else s.tlast }
          else
            { s with wrdCount := 0, sData := 0, tvalid := false, tlast := false, srcState := .idle }
        else s
    | .startPkt => s

/-- One edge of `clk`. -/
def next (s : State) (i : Inputs) : State :=
  { p1 s i with
    shiftReg := shift i.resetn s.shiftReg
    pacing := pace pktDel i.resetn i.start s.ackPkt s.pacing }

/-- One transfer of the stream. -/
structure Beat where
  tdata : BitVec 256
  tlast : Bool
  deriving DecidableEq, Repr

/-- The transfer at the end of a cycle. -/
def beat (s : State) (i : Inputs) : Option Beat :=
  if s.tvalid && i.tready then some ⟨s.sData, s.tlast⟩ else none

/-! ## The tester

A beat is 32 bytes in memory, the lowest bits first, and the tester reads them as words of a little
endian machine. -/

def byteOf (tdata : BitVec 256) (k : Nat) : BitVec 8 := tdata.extractLsb' (8 * k) 8

/-- Word `i` of a beat: `dta[i]` of `struct dta_payload`. -/
def wordOf (tdata : BitVec 256) (i : Nat) : BitVec 32 :=
  byteOf tdata (4 * i + 3) ++ byteOf tdata (4 * i + 2) ++ byteOf tdata (4 * i + 1) ++
    byteOf tdata (4 * i)

def getStep (tdata : BitVec 256) : BitVec 32 := (wordOf tdata 0 >>> 8) &&& 0xf

def getInit (tdata : BitVec 256) : BitVec 32 := wordOf tdata 0 &&& 0xff

def getLen (tdata : BitVec 256) : BitVec 32 := wordOf tdata 1

/-- A packet as the tester reads it off its header: as many beats as the header says, the last one
marked, and in beat `b` the words `init + (b - 2) * step + i`. -/
structure IsPacket (p : List Beat) (head : Beat) : Prop where
  first : p[0]? = some head
  length : p.length = (getLen head.tdata).toNat
  last : ∀ b, 1 ≤ b → b ≤ p.length → p[b - 1]?.map Beat.tlast = some (decide (b = p.length))
  data : ∀ b, 2 ≤ b → b ≤ p.length → ∀ i, i < 8 →
    p[b - 1]?.map (fun x => wordOf x.tdata i) = some (BitVec.ofNat 32
      ((getInit head.tdata).toNat + (b - 2) * (getStep head.tdata).toNat + i))

/-- Whole packets, and the beginning of one that may still be under way. -/
def Packets (xs : List Beat) : Prop :=
  ∃ whole part p, xs = List.flatten whole ++ part ∧ (∀ q ∈ whole, ∃ head, IsPacket q head) ∧
    (∃ head, IsPacket p head) ∧ part <+: p

/-! ## Reading words off a beat -/

theorem wordOf_eq (tdata : BitVec 256) (i : Nat) : wordOf tdata i = tdata.extractLsb' (32 * i) 32 := by
  unfold wordOf byteOf
  rw [BitVec.extractLsb'_append_extractLsb'_eq_extractLsb' (by omega),
    BitVec.extractLsb'_append_extractLsb'_eq_extractLsb' (by omega),
    BitVec.extractLsb'_append_extractLsb'_eq_extractLsb' (by omega)]
  congr 1
  omega

/-- Eight words next to each other. -/
theorem extract_word (a : Nat → BitVec 32) {i : Nat} (hi : i < 8) :
    (a 7 ++ a 6 ++ a 5 ++ a 4 ++ a 3 ++ a 2 ++ a 1 ++ a 0).extractLsb' (32 * i) 32 = a i := by
  obtain rfl | rfl | rfl | rfl | rfl | rfl | rfl | rfl :
      i = 0 ∨ i = 1 ∨ i = 2 ∨ i = 3 ∨ i = 4 ∨ i = 5 ∨ i = 6 ∨ i = 7 := by omega
  all_goals
    simp (disch := omega) only [BitVec.extractLsb'_append_eq_of_le,
      BitVec.extractLsb'_append_eq_of_add_le, Nat.reduceMul, Nat.reduceSub,
      BitVec.extractLsb'_eq_self]

theorem wordOf_words (cntData : BitVec 32) {i : Nat} (hi : i < 8) :
    wordOf (words cntData) i = cntData + BitVec.ofNat 32 i := by
  rw [wordOf_eq]
  exact extract_word (fun j => cntData + BitVec.ofNat 32 j) hi

theorem header_toNat (initData pktStep pktLen : Nat) :
    (header initData pktStep pktLen).toNat =
      pktLen % 2 ^ 32 * 2 ^ 32 + pktStep % 16 * 256 + initData % 256 := by
  have happend : (0#192 ++ BitVec.ofNat 32 pktLen ++ 0#20 ++ BitVec.ofNat 4 pktStep ++
      BitVec.ofNat 8 initData).toNat =
      pktLen % 2 ^ 32 * 2 ^ 32 + pktStep % 16 * 256 + initData % 256 := by
    simp only [append_toNat, BitVec.toNat_ofNat]
    omega
  exact happend

theorem wordOf_toNat (tdata : BitVec 256) (i : Nat) :
    (wordOf tdata i).toNat = tdata.toNat / 2 ^ (32 * i) % 2 ^ 32 := by
  rw [wordOf_eq, BitVec.extractLsb'_toNat, Nat.shiftRight_eq_div_pow]

theorem getLen_header {pktLen : Nat} (hlen : pktLen < 2 ^ 32) (initData pktStep : Nat) :
    (getLen (header initData pktStep pktLen)).toNat = pktLen := by
  unfold getLen
  rw [wordOf_toNat, header_toNat]
  omega

/-- The flags of the header. -/
theorem flags_header {initData pktStep : Nat} (hinit : initData < 256) (hstep : pktStep < 16)
    (pktLen : Nat) :
    (wordOf (header initData pktStep pktLen) 0).toNat = pktStep * 256 + initData := by
  rw [wordOf_toNat, header_toNat]
  omega

theorem getInit_header {initData pktStep : Nat} (hinit : initData < 256) (hstep : pktStep < 16)
    (pktLen : Nat) : (getInit (header initData pktStep pktLen)).toNat = initData := by
  have hmask := and_mask_toNat (wordOf (header initData pktStep pktLen) 0) (show 8 ≤ 32 by omega)
  rw [flags_header hinit hstep] at hmask
  refine hmask.trans ?_
  omega

theorem getStep_header {initData pktStep : Nat} (hinit : initData < 256) (hstep : pktStep < 16)
    (pktLen : Nat) : (getStep (header initData pktStep pktLen)).toNat = pktStep := by
  have hmask := and_mask_toNat (wordOf (header initData pktStep pktLen) 0 >>> 8)
    (show 4 ≤ 32 by omega)
  rw [BitVec.toNat_ushiftRight, flags_header hinit hstep, Nat.shiftRight_eq_div_pow] at hmask
  refine hmask.trans ?_
  omega

/-! ## Packets -/

/-- The parameters of a packet. -/
structure Params where
  initData : Nat
  pktStep : Nat
  pktLen : Nat
  init_lt : initData < 256
  step_lt : pktStep < 16
  two_le_len : 2 ≤ pktLen
  len_lt : pktLen < 2 ^ 32

namespace Params

variable (q : Params)

/-- Beat `k` of the packet, where beat 0 is the header. -/
def beatAt (k : Nat) : Beat :=
  ⟨if k = 0 then header q.initData q.pktStep q.pktLen
    else words (BitVec.ofNat 32 (q.initData + (k - 1) * q.pktStep)), decide (k + 1 = q.pktLen)⟩

def packet : List Beat := (List.range q.pktLen).map q.beatAt

theorem packet_length : q.packet.length = q.pktLen := by simp [packet]

theorem packet_getElem {k : Nat} (hk : k < q.pktLen) : q.packet[k]? = some (q.beatAt k) := by
  simp [packet, hk]

theorem isPacket : IsPacket q.packet (q.beatAt 0) := by
  have htwo := q.two_le_len
  have hdata : (q.beatAt 0).tdata = header q.initData q.pktStep q.pktLen := rfl
  refine ⟨q.packet_getElem (by omega), ?_, fun b hb hb' => ?_, fun b hb hb' i hi => ?_⟩
  · rw [hdata, getLen_header q.len_lt, packet_length]
  · rw [packet_length] at hb' ⊢
    rw [q.packet_getElem (by omega), Option.map_some]
    simp only [beatAt, Option.some.injEq, decide_eq_decide]
    omega
  · rw [packet_length] at hb'
    rw [q.packet_getElem (by omega), Option.map_some, hdata, getInit_header q.init_lt q.step_lt,
      getStep_header q.init_lt q.step_lt]
    have hne : b - 1 ≠ 0 := by omega
    simp only [beatAt, hne, if_false, wordOf_words _ hi]
    rw [show b - 1 - 1 = b - 2 by omega, ← BitVec.ofNat_add]

end Params

/-! ## One edge -/

/-- The parameters are latched. -/
structure Latched (q : Params) (s : State) : Prop where
  initData : s.initData = q.initData
  pktStep : s.pktStep = q.pktStep
  pktLen : s.pktLen = q.pktLen

/-- Beat `k` of the packet is offered. -/
structure Offers (q : Params) (k : Nat) (s : State) : Prop where
  srcState : s.srcState = .sendPkt
  tvalid : s.tvalid = true
  wrdCount : s.wrdCount = k + 2
  inside : k < q.pktLen
  cntData : s.cntData = BitVec.ofNat 32 (q.initData + k * q.pktStep)
  offered : (⟨s.sData, s.tlast⟩ : Beat) = q.beatAt k
  latched : Latched q s

/-- What was transferred so far, as the state machine sees it. -/
def Sent (xs : List Beat) (s : State) : Prop :=
  ∃ whole, (∀ p ∈ whole, ∃ head, IsPacket p head) ∧
    ((s.srcState = .idle ∧ s.tvalid = false ∧ xs = List.flatten whole) ∨
      (s.srcState = .startHead ∧ s.tvalid = false ∧ xs = List.flatten whole ∧ ∃ q, Latched q s) ∨
      ∃ q k, Offers q k s ∧ xs = List.flatten whole ++ q.packet.take k)

section Edge

variable {s : State} {i : Inputs} {xs : List Beat} {q : Params} {k : Nat}

theorem beat_idle (hvalid : s.tvalid = false) : beat s i = none := by
  simp [beat, hvalid]

/-- The parameters that are taken from the shift register. -/
def paramsOf (shiftReg : BitVec 49) : Params where
  initData := (shiftReg.extractLsb' 0 8).toNat
  pktStep := (shiftReg.extractLsb' 8 4).toNat
  pktLen := (shiftReg.extractLsb' 12 19).toNat + 160000
  init_lt := BitVec.isLt _
  step_lt := BitVec.isLt _
  two_le_len := by omega
  len_lt := by have := (shiftReg.extractLsb' 12 19).isLt; omega

theorem next_idle (hr : i.resetn = true) (hs : s.srcState = .idle) (hvalid : s.tvalid = false) :
    ((next s i).srcState = .idle ∨
      (next s i).srcState = .startHead ∧ Latched (paramsOf s.shiftReg) (next s i)) ∧
      (next s i).tvalid = false := by
  unfold next p1
  simp only [hr, Bool.true_eq_false, if_false, hs]
  split
  · exact ⟨.inr ⟨rfl, rfl, rfl, rfl⟩, hvalid⟩
  · exact ⟨.inl rfl, hvalid⟩

/-- The header is prepared. -/
theorem next_startHead (hr : i.resetn = true) (hs : s.srcState = .startHead) (hq : Latched q s) :
    Offers q 0 (next s i) := by
  have hnext : p1 s i = { s with
      sData := header s.initData s.pktStep s.pktLen
      cntData := BitVec.ofNat 32 s.initData
      wrdCount := 2
      tvalid := true
      tlast := false
      ackPkt := true
      srcState := .sendPkt } := by
    simp only [p1, hr, Bool.true_eq_false, if_false, hs]
  have htwo := q.two_le_len
  unfold next
  rw [hnext]
  refine ⟨rfl, rfl, rfl, by omega, ?_, ?_, hq.initData, hq.pktStep, hq.pktLen⟩
  · simp [hq.initData]
  · have hlast : decide (0 + 1 = q.pktLen) = false := decide_eq_false (by omega)
    simp only [Params.beatAt, if_true, hlast, hq.initData, hq.pktStep, hq.pktLen]

theorem Offers.stalled (h : Offers q k s) (hr : i.resetn = true) (hready : i.tready = false) :
    Offers q k (next s i) := by
  have hnext : p1 s i = { s with ackPkt := false } := by
    simp only [p1, hr, Bool.true_eq_false, if_false, h.srcState, hready, Bool.false_eq_true]
  unfold next
  rw [hnext]
  exact ⟨h.srcState, h.tvalid, h.wrdCount, h.inside, h.cntData, h.offered, h.latched.initData,
    h.latched.pktStep, h.latched.pktLen⟩

/-- The next beat is prepared while this one is taken. -/
theorem Offers.step (h : Offers q k s) (hr : i.resetn = true) (hready : i.tready = true)
    (hmore : k + 1 < q.pktLen) : Offers q (k + 1) (next s i) := by
  have hle : s.wrdCount ≤ s.pktLen := by
    rw [h.wrdCount, h.latched.pktLen]
    omega
  have hnext : p1 s i = { s with
      ackPkt := false
      wrdCount := s.wrdCount + 1
      cntData := s.cntData + BitVec.ofNat 32 s.pktStep
      sData := words s.cntData
      tlast := if s.wrdCount = s.pktLen then true else s.tlast } := by
    simp only [p1, hr, Bool.true_eq_false, if_false, h.srcState, hready, if_true, hle]
  have hlast : s.tlast = false := by
    have hflag : s.tlast = decide (k + 1 = q.pktLen) := congrArg Beat.tlast h.offered
    rw [hflag]
    exact decide_eq_false (by omega)
  unfold next
  rw [hnext]
  refine ⟨h.srcState, h.tvalid, ?_, hmore, ?_, ?_, h.latched.initData, h.latched.pktStep,
    h.latched.pktLen⟩
  · show s.wrdCount + 1 = k + 1 + 2
    rw [h.wrdCount]
  · show s.cntData + BitVec.ofNat 32 s.pktStep = _
    rw [h.cntData, h.latched.pktStep, ← BitVec.ofNat_add, Nat.succ_mul, Nat.add_assoc]
  · show Beat.mk (words s.cntData) (if s.wrdCount = s.pktLen then true else s.tlast) = q.beatAt (k + 1)
    have hne : k + 1 ≠ 0 := Nat.succ_ne_zero k
    simp only [Params.beatAt, hne, if_false, Nat.add_sub_cancel, h.cntData, Beat.mk.injEq, true_and,
      h.wrdCount, h.latched.pktLen, hlast]
    by_cases hend : k + 2 = q.pktLen
    · rw [if_pos hend, decide_eq_true (by omega)]
    · rw [if_neg hend, decide_eq_false (by omega)]

/-- Behind the last beat the machine is idle again. -/
theorem Offers.finish (h : Offers q k s) (hr : i.resetn = true) (hready : i.tready = true)
    (hend : k + 1 = q.pktLen) : (next s i).srcState = .idle ∧ (next s i).tvalid = false := by
  have hgt : ¬s.wrdCount ≤ s.pktLen := by
    rw [h.wrdCount, h.latched.pktLen]
    omega
  unfold next p1
  simp only [hr, Bool.true_eq_false, if_false, h.srcState, hready, if_true, hgt, and_self]

theorem Offers.beat (h : Offers q k s) (hready : i.tready = true) :
    beat s i = some (q.beatAt k) := by
  rw [← h.offered]
  simp [RandomSource.beat, h.tvalid, hready]

theorem Params.packet_take_succ (q : Params) {k : Nat} (hk : k < q.pktLen) :
    q.packet.take (k + 1) = q.packet.take k ++ [q.beatAt k] := by
  rw [List.take_add_one, q.packet_getElem hk]
  rfl

/-- One cycle. -/
theorem Sent.step (h : Sent xs s) (hr : i.resetn = true) :
    Sent (xs ++ (RandomSource.beat s i).toList) (next s i) := by
  obtain ⟨whole, hwhole, ⟨hs, hvalid, rfl⟩ | ⟨hs, hvalid, rfl, q, hq⟩ | ⟨q, k, ho, rfl⟩⟩ := h
  · rw [beat_idle hvalid, Option.toList_none, List.append_nil]
    obtain ⟨hidle | ⟨hhead, hq⟩, hvalid'⟩ := next_idle hr hs hvalid
    · exact ⟨whole, hwhole, .inl ⟨hidle, hvalid', rfl⟩⟩
    · exact ⟨whole, hwhole, .inr (.inl ⟨hhead, hvalid', rfl, _, hq⟩)⟩
  · rw [beat_idle hvalid, Option.toList_none, List.append_nil]
    exact ⟨whole, hwhole, .inr (.inr ⟨q, 0, next_startHead hr hs hq, by simp⟩)⟩
  cases hready : i.tready with
  | false =>
      have hnone : RandomSource.beat s i = none := by simp [RandomSource.beat, hready]
      rw [hnone, Option.toList_none, List.append_nil]
      exact ⟨whole, hwhole, .inr (.inr ⟨q, k, ho.stalled hr hready, rfl⟩)⟩
  | true =>
      rw [ho.beat hready, Option.toList_some, List.append_assoc, ← q.packet_take_succ ho.inside]
      by_cases hend : k + 1 = q.pktLen
      · obtain ⟨hidle, hvalid⟩ := ho.finish hr hready hend
        refine ⟨whole ++ [q.packet], ?_, .inl ⟨hidle, hvalid, ?_⟩⟩
        · intro p hp
          rcases List.mem_append.1 hp with hp | hp
          · exact hwhole p hp
          · obtain rfl := List.mem_singleton.1 hp
            exact ⟨_, q.isPacket⟩
        · rw [List.flatten_append, hend, List.take_of_length_le (Nat.le_of_eq q.packet_length)]
          simp
      · have hmore : k + 1 < q.pktLen := by
          have := ho.inside
          omega
        exact ⟨whole, hwhole, .inr (.inr ⟨q, k + 1, ho.step hr hready hmore, rfl⟩)⟩

end Edge

/-! ## Runs -/

/-- The states after a reset, with no further reset and any contents of the shift register. -/
structure Run (input : Nat → Inputs) (st : Nat → State) : Prop where
  reset : ∃ s i shiftReg, i.resetn = false ∧ st 0 = { next s i with shiftReg := shiftReg }
  edge : ∀ n, st (n + 1) = next (st n) (input n)
  noReset : ∀ n, (input n).resetn = true

/-- The transfers of the first `n` cycles. -/
def beats (input : Nat → Inputs) (st : Nat → State) (n : Nat) : List Beat :=
  events (fun k => beat (st k) (input k)) n

section Runs

variable {input : Nat → Inputs} {st : Nat → State}

theorem beats_succ (n : Nat) :
    beats input st (n + 1) = beats input st n ++ (beat (st n) (input n)).toList :=
  events_add _ n 1

theorem Run.sent (h : Run input st) (n : Nat) : Sent (beats input st n) (st n) := by
  induction n with
  | zero =>
      obtain ⟨s, i, shiftReg, hi, h0⟩ := h.reset
      refine ⟨[], fun p hp => absurd hp List.not_mem_nil, .inl ⟨?_, ?_, rfl⟩⟩
      · rw [h0]
        simp only [next, p1, hi, if_true]
      · rw [h0]
        simp only [next, p1, hi, if_true]
  | succ n ih =>
      have hstep := ih.step (h.noReset n)
      rw [← h.edge] at hstep
      rw [beats_succ]
      exact hstep

theorem Sent.packets {xs : List Beat} {s : State} (h : Sent xs s) : Packets xs := by
  obtain ⟨whole, hwhole, ⟨-, -, rfl⟩ | ⟨-, -, rfl, -⟩ | ⟨q, k, -, rfl⟩⟩ := h
  -- Between two packets the part is empty, and any packet will do.
  · exact ⟨whole, [], (paramsOf 0).packet, by simp, hwhole, ⟨_, (paramsOf 0).isPacket⟩,
      List.nil_prefix⟩
  · exact ⟨whole, [], (paramsOf 0).packet, by simp, hwhole, ⟨_, (paramsOf 0).isPacket⟩,
      List.nil_prefix⟩
  · exact ⟨whole, _, q.packet, rfl, hwhole, ⟨_, q.isPacket⟩, List.take_prefix k _⟩

/-- A beat that is not taken stays as it is. -/
theorem Run.stable (h : Run input st) (n : Nat) (hvalid : (st n).tvalid = true)
    (hready : (input n).tready = false) :
    (st (n + 1)).tvalid = true ∧ (st (n + 1)).sData = (st n).sData ∧
      (st (n + 1)).tlast = (st n).tlast := by
  obtain ⟨whole, -, ⟨-, hno, -⟩ | ⟨-, hno, -⟩ | ⟨q, k, ho, -⟩⟩ := h.sent n
  · rw [hvalid] at hno
    cases hno
  · rw [hvalid] at hno
    cases hno
  · have ho' := ho.stalled (h.noReset n) hready
    rw [← h.edge] at ho'
    have hsame := ho'.offered.trans ho.offered.symm
    exact ⟨ho'.tvalid, congrArg Beat.tdata hsame, congrArg Beat.tlast hsame⟩

/-- What is seen of the source at its stream. -/
structure Framed (input : Nat → Inputs) (st : Nat → State) : Prop where
  packets : ∀ n, Packets (beats input st n)
  stable : ∀ n, (st n).tvalid = true → (input n).tready = false →
    (st (n + 1)).tvalid = true ∧ (st (n + 1)).sData = (st n).sData ∧
      (st (n + 1)).tlast = (st n).tlast

/-- The tester finds every packet as its header announces it, however the stream is stalled. -/
theorem random_source_packets (h : Run input st) : Framed input st where
  packets n := (h.sent n).packets
  stable := h.stable

/-! ### A consumer that takes everything -/

/-- Between two packets -/
structure Idle (s : State) : Prop where
  srcState : s.srcState = .idle
  tvalid : s.tvalid = false

theorem beats_idle {n : Nat} (hvalid : (st n).tvalid = false) :
    beats input st (n + 1) = beats input st n := by
  rw [beats_succ, beat_idle hvalid, Option.toList_none, List.append_nil]

/-- A packet that was asked for begins. -/
theorem Run.begins_requested (h : Run input st) {n : Nat} (hidle : Idle (st n))
    (hreq : (st n).pacing.startPkt = true) :
    ∃ m w, Offers (paramsOf w) 0 (st m) ∧ beats input st m = beats input st n := by
  have hhead : (next (st n) (input n)).srcState = .startHead ∧
      Latched (paramsOf (st n).shiftReg) (next (st n) (input n)) := by
    unfold next p1
    simp only [h.noReset n, Bool.true_eq_false, if_false, hidle.srcState, hreq, if_true]
    exact ⟨trivial, rfl, rfl, rfl⟩
  have hvalid := (next_idle (h.noReset n) hidle.srcState hidle.tvalid).2
  rw [← h.edge] at hhead hvalid
  have hoffers := next_startHead (h.noReset (n + 1)) hhead.1 hhead.2
  rw [← h.edge] at hoffers
  exact ⟨n + 2, _, hoffers, (beats_idle hvalid).trans (beats_idle hidle.tvalid)⟩

/-- The delay ends, and the next packet begins. -/
theorem Run.begins (h : Run input st) (hstart : ∀ n, (input n).start = true) {n : Nat}
    (hidle : Idle (st n)) :
    ∃ m w, Offers (paramsOf w) 0 (st m) ∧ beats input st m = beats input st n := by
  cases hreq : (st n).pacing.startPkt with
  | true => exact h.begins_requested hidle hreq
  | false =>
      -- by induction on what is left of the delay
      generalize hlen : pktDel - (st n).pacing.delCnt = len
      induction len generalizing n with
      | zero =>
          have hnext : Idle (st (n + 1)) ∧ (st (n + 1)).pacing.startPkt = true := by
            rw [h.edge]
            unfold next p1 pace
            simp only [h.noReset n, hstart n, Bool.true_eq_false, or_self, if_false, hidle.srcState,
              hreq, Bool.false_eq_true]
            rw [if_neg (by omega)]
            exact ⟨⟨rfl, hidle.tvalid⟩, rfl⟩
          obtain ⟨m, w, hm, hbeats⟩ := h.begins_requested hnext.1 hnext.2
          exact ⟨m, w, hm, hbeats.trans (beats_idle hidle.tvalid)⟩
      | succ len ih =>
          have hnext : Idle (st (n + 1)) ∧ (st (n + 1)).pacing.startPkt = false ∧
              (st (n + 1)).pacing.delCnt = (st n).pacing.delCnt + 1 := by
            rw [h.edge]
            unfold next p1 pace
            simp only [h.noReset n, hstart n, Bool.true_eq_false, or_self, if_false, hidle.srcState,
              hreq, Bool.false_eq_true]
            rw [if_pos (by omega)]
            exact ⟨⟨rfl, hidle.tvalid⟩, ite_self _, rfl⟩
          obtain ⟨m, w, hm, hbeats⟩ := ih hnext.1 hnext.2.1 (by omega)
          exact ⟨m, w, hm, hbeats.trans (beats_idle hidle.tvalid)⟩

/-- A packet that is offered goes out beat by beat. -/
theorem Run.finishes (h : Run input st) (hready : ∀ n, (input n).tready = true) {q : Params}
    {n k : Nat} (ho : Offers q k (st n)) :
    ∃ m, Idle (st m) ∧ beats input st m = beats input st n ++ q.packet.drop k := by
  -- by induction on the beats that are left
  generalize hlen : q.pktLen - (k + 1) = len
  induction len generalizing n k with
  | zero =>
      have hk := ho.inside
      have hidle := ho.finish (h.noReset n) (hready n) (by omega)
      rw [← h.edge] at hidle
      refine ⟨n + 1, ⟨hidle.1, hidle.2⟩, ?_⟩
      have hget := q.packet_getElem hk
      rw [List.getElem?_eq_some_iff] at hget
      obtain ⟨hlt, hget⟩ := hget
      rw [beats_succ, ho.beat (hready n), List.drop_eq_getElem_cons hlt, hget,
        List.drop_of_length_le (by rw [q.packet_length]; omega)]
      rfl
  | succ len ih =>
      have hk := ho.inside
      have hnext := ho.step (h.noReset n) (hready n) (by omega)
      rw [← h.edge] at hnext
      obtain ⟨m, hm, hbeats⟩ := ih hnext (by omega)
      refine ⟨m, hm, ?_⟩
      have hget := q.packet_getElem hk
      rw [List.getElem?_eq_some_iff] at hget
      obtain ⟨hlt, hget⟩ := hget
      rw [hbeats, beats_succ, ho.beat (hready n), List.drop_eq_getElem_cons hlt, hget, List.append_assoc]
      rfl

/-- The source never stops sending: as many packets as one likes. -/
theorem Run.sends (h : Run input st) (hready : ∀ n, (input n).tready = true)
    (hstart : ∀ n, (input n).start = true) (count : Nat) :
    ∃ n, ∃ ws : List (BitVec 49), ws.length = count ∧ Idle (st n) ∧
      beats input st n = (ws.map fun w => (paramsOf w).packet).flatten := by
  induction count with
  | zero =>
      obtain ⟨s, i, shiftReg, hi, h0⟩ := h.reset
      refine ⟨0, [], rfl, ⟨?_, ?_⟩, rfl⟩
      · rw [h0]
        simp only [next, p1, hi, if_true]
      · rw [h0]
        simp only [next, p1, hi, if_true]
  | succ count ih =>
      obtain ⟨n, ws, hlen, hidle, hbeats⟩ := ih
      obtain ⟨m, w, ho, hm⟩ := h.begins hstart hidle
      obtain ⟨m', hidle', hm'⟩ := h.finishes hready ho
      refine ⟨m', ws ++ [w], ?_, hidle', ?_⟩
      · rw [List.length_append, hlen]
        rfl
      · rw [hm', hm, hbeats, List.drop_zero, List.map_append, List.flatten_append]
        simp only [List.map_cons, List.map_nil, List.flatten_cons, List.flatten_nil, List.append_nil]

end Runs

/-- The source right after a reset. -/
def resetState : State :=
  { srcState := .idle, pktStep := 0, sData := 0, cntData := 0, wrdCount := 0, pktLen := 0,
    initData := 0, shiftReg := 1, ackPkt := false, tvalid := false, tlast := false,
    pacing := ⟨0, false⟩ }

theorem run_of_reset {input : Nat → Inputs} (hreset : ∀ n, (input n).resetn = true)
    (shiftReg : BitVec 49) : Run input (stateAt next { resetState with shiftReg := shiftReg } input) :=
  ⟨⟨resetState, ⟨false, true, true⟩, shiftReg, rfl, rfl⟩, fun _ => rfl, hreset⟩

/-- A consumer that is always ready, with a shift register of all ones. -/
theorem random_source_packets_ready :
    let input : Nat → Inputs := fun _ => ⟨true, true, true⟩
    let st := stateAt next { resetState with shiftReg := BitVec.allOnes 49 } input
    beat (st 13) (input 13) ≠ none ∧ Framed input st :=
  ⟨by decide +kernel, random_source_packets (run_of_reset (fun _ => rfl) (BitVec.allOnes 49))⟩

end RandomSource
end Hdl
end WzXdma
