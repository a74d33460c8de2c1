import WzXdma.Hdl.Pacing
import WzXdma.Lib.Clocked

/-!
# The source of three records

The entity of `axi4s_src4.vhd`, which sends sets of three records of neighbouring channels, and the
payloads of `test_data_pkg.vhd`.  The signals that are never read (`old_start`, `wrd_count`) or not
used at all are left out, and `tkeep` is constant.

The state machine sends `data_ch1` twice: in the second record and in the third one, where
`data_ch2` is due.
-/

namespace WzXdma
namespace Hdl
namespace RecordSource

open Lib.Clocked Pacing

/-- `data_ch0`, in hexadecimal digits. -/
def dataCh0 : BitVec 640 :=
  0x007a007a007900780078007b007a007a#128 ++ 0x007b007a0079008600a300bf00c400ba#128 ++
    0x00b000a400990093008c008a00850086#128 ++ 0x00810080007f007d007b007a007a0079#128 ++
    0x0078007b007b007d007b007c0078007a#128

def dataCh1 : BitVec 640 :=
  0x01650164016501650164016801680168#128 ++ 0x016801680168017601a802170285029d#128 ++
    0x02850256022701ff01de01c501af01a0#128 ++ 0x0193018b0185017d017901740171016d#128 ++
    0x016a016b016a01690168016a01670168#128

def dataCh2 : BitVec 640 :=
  0x008e008f008e008b008a008d008c008b#128 ++ 0x008c008b008a009500ad00bb00b200a4#128 ++
    0x009e0098009400940092009400920095#128 ++ 0x009200910091008f008e008e008d008c#128 ++
    0x008a008c008c008d008c008e008c008e#128

/-- `T_SRC_STATE` -/
inductive SrcState
  | stIdle
  | stWord0
  | stWord1
  | stWord2
  | stEnd
  deriving DecidableEq, Repr

structure Inputs where
  resetn : Bool
  tready : Bool
  start : Bool
  deriving DecidableEq, Repr

structure State where
  srcState : SrcState
  pktDel : Nat
  sData : BitVec 704
  shiftReg : BitVec 49
  ackPkt : Bool
  tvalid : Bool
  tlast : Bool
  timestamp : BitVec 32
  sTimestamp : BitVec 32
  chnNum : Nat
  /-- `del_cnt` and `start_pkt` -/
  pacing : Pace
  deriving DecidableEq, Repr

def mkRec (chnNum : Nat) (timestamp : BitVec 32) (data : BitVec 640) : BitVec 704 :=
  BitVec.ofNat 8 chnNum ++ 0#24 ++ timestamp ++ data

/-- The number that is left in `v_chn_num`. -/
def vChnNum (shiftReg : BitVec 49) : Nat :=
  let v := (shiftReg.extractLsb' 0 6).toNat
  if v = 0 ∨ v = 63 then
    let v := (shiftReg.extractLsb' 6 6).toNat
    let v := if v = 0 then 1 else v
    if v = 63 then 62 else v
  else v

/-- The part of process `p0` that counts. -/
def count (resetn start : Bool) (timestamp : BitVec 32) : BitVec 32 :=
  if resetn = false ∨ start = false then 0 else timestamp + 1

/-- Process `p1`. -/
def p1 (s : State) (i : Inputs) : State :=
  if i.resetn = false then
    { s with sData := 0, tvalid := false, tlast := false, ackPkt := false, srcState := .stIdle }
  else
    let s := { s with ackPkt := false }
    match s.srcState with
    | .stIdle =>
        if s.pacing.startPkt then
          { s with
            pktDel := (s.shiftReg.extractLsb' 12 19).toNat + 160000
            chnNum := vChnNum s.shiftReg
            sTimestamp := s.timestamp
            srcState := .stWord0 }
        else s
    | .stWord0 =>
        { s with
          sData := mkRec (s.chnNum - 1) s.sTimestamp dataCh0
          tvalid := true
          tlast := false
          ackPkt := true
          srcState := .stWord1 }
    | .stWord1 =>
        if i.tready then
          { s with sData := mkRec s.chnNum s.sTimestamp dataCh1, srcState := .stWord2 }
        else s
    | .stWord2 =>
        if i.tready then
          { s with
            sData := mkRec (s.chnNum + 1) s.sTimestamp dataCh1
            tlast := true
            srcState := .stEnd }
        else s
    | .stEnd =>
        if i.tready then
          { s with sData := 0, tvalid := false, tlast := false, srcState := .stIdle }
        else s

/-- One edge of `clk`. -/
def next (s : State) (i : Inputs) : State :=
  { p1 s i with
    shiftReg := shift i.resetn s.shiftReg
    timestamp := count i.resetn i.start s.timestamp
    pacing := pace s.pktDel i.resetn i.start s.ackPkt s.pacing }

/-- One transfer of the stream. -/
structure Beat where
  tdata : BitVec 704
  tlast : Bool
  deriving DecidableEq, Repr

/-- The transfer at the end of a cycle. -/
def beat (s : State) (i : Inputs) : Option Beat :=
  if s.tvalid && i.tready then some ⟨s.sData, s.tlast⟩ else none

/-- A set is started at the end of the cycle. -/
def begins (s : State) : Bool := decide (s.srcState = .stIdle) && s.pacing.startPkt

/-- The edge asks for a set. -/
def asks (s : State) (i : Inputs) : Bool := requests s.pktDel i.resetn i.start s.pacing

/-! ## Sets -/

/-- The records of one set, with the payload of the third one as a parameter. -/
def records (third : BitVec 640) (c : Nat) (timestamp : BitVec 32) : List Beat :=
  [⟨mkRec (c - 1) timestamp dataCh0, false⟩, ⟨mkRec c timestamp dataCh1, false⟩,
    ⟨mkRec (c + 1) timestamp third, true⟩]

/-- The states after a reset, with no further reset and any contents of the shift register. -/
structure Run (input : Nat → Inputs) (st : Nat → State) : Prop where
  reset : ∃ s i shiftReg, i.resetn = false ∧ st 0 = { next s i with shiftReg := shiftReg }
  edge : ∀ n, st (n + 1) = next (st n) (input n)
  noReset : ∀ n, (input n).resetn = true

/-- The transfers of the first `n` cycles. -/
def beats (input : Nat → Inputs) (st : Nat → State) (n : Nat) : List Beat :=
  events (fun k => beat (st k) (input k)) n

/-- The cycles among the first `n` ones that start a set. -/
def starts (st : Nat → State) (n : Nat) : List Nat :=
  events (fun k => if begins (st k) then some k else none) n

/-- What is seen of the source.  There is one set for each start, and only the last one may still be
under way.  Each start has a request of its own, later than all starts before it. -/
structure WellFormed (third : BitVec 640) (input : Nat → Inputs) (st : Nat → State) : Prop where
  sets : ∃ chn : Nat → Nat, (∀ m, 1 ≤ chn m ∧ chn m ≤ 62) ∧ ∀ n,
    (starts st n).dropLast.flatMap (fun m => records third (chn m) (st m).timestamp) <+:
        beats input st n ∧
      beats input st n <+: (starts st n).flatMap fun m => records third (chn m) (st m).timestamp
  stable : ∀ n, (st n).tvalid = true → (input n).tready = false →
    (st (n + 1)).tvalid = true ∧ (st (n + 1)).sData = (st n).sData ∧
      (st (n + 1)).tlast = (st n).tlast
  requested : ∀ m, begins (st m) = true → ∃ r, r < m ∧ asks (st r) (input r) = true ∧
    ∀ m', m' < m → begins (st m') = true → m' < r

theorem vChnNum_bounds (shiftReg : BitVec 49) :
    1 ≤ vChnNum shiftReg ∧ vChnNum shiftReg ≤ 62 := by
  have hlow := (shiftReg.extractLsb' 0 6).isLt
  have hhigh := (shiftReg.extractLsb' 6 6).isLt
  unfold vChnNum
  simp only
  by_cases hends : (shiftReg.extractLsb' 0 6).toNat = 0 ∨ (shiftReg.extractLsb' 0 6).toNat = 63
  · rw [if_pos hends]
    by_cases hzero : (shiftReg.extractLsb' 6 6).toNat = 0
    · rw [if_pos hzero, if_neg (by omega)]
      omega
    · rw [if_neg hzero]
      split <;> omega
  · rw [if_neg hends]
    omega

theorem dataCh1_ne_dataCh2 : dataCh1 ≠ dataCh2 := by decide +kernel

theorem mkRec_data (chnNum : Nat) (timestamp : BitVec 32) (data : BitVec 640) :
    (mkRec chnNum timestamp data).extractLsb' 0 640 = data := by
  have happend : (BitVec.ofNat 8 chnNum ++ 0#24 ++ timestamp ++ data).extractLsb' 0 640 = data := by
    rw [BitVec.extractLsb'_append_eq_of_add_le (by omega), BitVec.extractLsb'_eq_self]
  exact happend

theorem length_sets (third : BitVec 640) (chn : Nat → Nat) (time : Nat → BitVec 32)
    (ms : List Nat) : (ms.flatMap fun m => records third (chn m) (time m)).length = 3 * ms.length := by
  induction ms with
  | nil => rfl
  | cons m ms ih =>
      rw [List.flatMap_cons, List.length_append, ih, List.length_cons]
      show 3 + 3 * ms.length = 3 * (ms.length + 1)
      omega

/-! ## One edge -/

/-- The channel and the time of the start are latched. -/
structure Latched (s₀ s : State) : Prop where
  chnNum : s.chnNum = vChnNum s₀.shiftReg
  sTimestamp : s.sTimestamp = s₀.timestamp

/-- The state in which record `k` is offered. -/
def offering : Nat → SrcState
  | 0 => .stWord1
  | 1 => .stWord2
  | _ => .stEnd

/-- The set that a start gives. -/
def setOf (third : BitVec 640) (s₀ : State) : List Beat :=
  records third (vChnNum s₀.shiftReg) s₀.timestamp

/-- Record `k` of the set that was started in `s₀` is offered. -/
structure Offers (s₀ : State) (k : Nat) (s : State) : Prop where
  inside : k < 3
  srcState : s.srcState = offering k
  tvalid : s.tvalid = true
  offered : (setOf dataCh1 s₀)[k]? = some ⟨s.sData, s.tlast⟩
  latched : Latched s₀ s

section Edge

variable {s s₀ : State} {i : Inputs} {k : Nat}

theorem begins_iff : begins s = true ↔ s.srcState = .stIdle ∧ s.pacing.startPkt = true := by
  simp [begins]

theorem beat_of_not_valid (hvalid : s.tvalid = false) : beat s i = none := by
  simp [beat, hvalid]

theorem beat_of_not_ready (hready : i.tready = false) : beat s i = none := by
  simp [beat, hready]

theorem next_begins (hr : i.resetn = true) (h : begins s = true) (hvalid : s.tvalid = false) :
    (next s i).srcState = .stWord0 ∧ (next s i).tvalid = false ∧ Latched s (next s i) := by
  obtain ⟨hs, hstart⟩ := begins_iff.mp h
  unfold next p1
  simp only [hr, Bool.true_eq_false, if_false, hs, hstart, if_true]
  exact ⟨trivial, hvalid, rfl, rfl⟩

theorem next_idle (hr : i.resetn = true) (hs : s.srcState = .stIdle) (h : begins s = false)
    (hvalid : s.tvalid = false) :
    (next s i).srcState = .stIdle ∧ (next s i).tvalid = false := by
  have hstart : s.pacing.startPkt = false := by simpa [begins, hs] using h
  unfold next p1
  simp only [hr, Bool.true_eq_false, if_false, hs, hstart, Bool.false_eq_true]
  exact ⟨trivial, hvalid⟩

theorem next_word0 (hr : i.resetn = true) (hs : s.srcState = .stWord0) (hl : Latched s₀ s) :
    Offers s₀ 0 (next s i) ∧ (next s i).ackPkt = true := by
  have hnext : p1 s i = { s with
      sData := mkRec (s.chnNum - 1) s.sTimestamp dataCh0
      tvalid := true
      tlast := false
      ackPkt := true
      srcState := .stWord1 } := by
    simp only [p1, hr, Bool.true_eq_false, if_false, hs]
  unfold next
  rw [hnext]
  refine ⟨⟨by omega, rfl, rfl, ?_, hl.chnNum, hl.sTimestamp⟩, rfl⟩
  show some _ = some _
  rw [hl.chnNum, hl.sTimestamp]

theorem Offers.stalled (h : Offers s₀ k s) (hr : i.resetn = true) (hready : i.tready = false) :
    Offers s₀ k (next s i) := by
  have hnext : p1 s i = { s with ackPkt := false } := by
    obtain ⟨hk, hs, -, -, -⟩ := h
    obtain rfl | rfl | rfl : k = 0 ∨ k = 1 ∨ k = 2 := by omega
    all_goals
      simp only [offering] at hs
      simp only [p1, hr, Bool.true_eq_false, if_false, hs, hready, Bool.false_eq_true]
  unfold next
  rw [hnext]
  exact ⟨h.inside, h.srcState, h.tvalid, h.offered, h.latched.chnNum, h.latched.sTimestamp⟩

/-- The next record is prepared while this one is taken. -/
theorem Offers.step (h : Offers s₀ k s) (hr : i.resetn = true) (hready : i.tready = true)
    (hk : k < 2) : Offers s₀ (k + 1) (next s i) := by
  obtain ⟨-, hs, hvalid, hoffered, hl⟩ := h
  obtain rfl | rfl : k = 0 ∨ k = 1 := by omega
  · have hnext : p1 s i = { s with
        ackPkt := false
        sData := mkRec s.chnNum s.sTimestamp dataCh1
        srcState := .stWord2 } := by
      simp only [offering] at hs
      simp only [p1, hr, Bool.true_eq_false, if_false, hs, hready, if_true]
    have hlast : false = s.tlast := congrArg Beat.tlast (Option.some.inj hoffered)
    unfold next
    rw [hnext]
    refine ⟨by omega, rfl, hvalid, ?_, hl.chnNum, hl.sTimestamp⟩
    show some _ = some _
    rw [hl.chnNum, hl.sTimestamp, ← hlast]
  · have hnext : p1 s i = { s with
        ackPkt := false
        sData := mkRec (s.chnNum + 1) s.sTimestamp dataCh1
        tlast := true
        srcState := .stEnd } := by
      simp only [offering] at hs
      simp only [p1, hr, Bool.true_eq_false, if_false, hs, hready, if_true]
    unfold next
    rw [hnext]
    refine ⟨by omega, rfl, hvalid, ?_, hl.chnNum, hl.sTimestamp⟩
    show some _ = some _
    rw [hl.chnNum, hl.sTimestamp]

theorem Offers.finish (h : Offers s₀ 2 s) (hr : i.resetn = true) (hready : i.tready = true) :
    (next s i).srcState = .stIdle ∧ (next s i).tvalid = false := by
  have hs : s.srcState = .stEnd := h.srcState
  unfold next p1
  simp only [hr, Bool.true_eq_false, if_false, hs, hready, if_true, and_self]

theorem Offers.not_begins (h : Offers s₀ k s) : begins s = false := by
  obtain ⟨hk, hs, -, -, -⟩ := h
  obtain rfl | rfl | rfl : k = 0 ∨ k = 1 ∨ k = 2 := by omega
  all_goals
    simp only [offering] at hs
    simp [begins, hs]

/-- The record that is taken, and what the third one has to be for that. -/
theorem Offers.taken (h : Offers s₀ k s) (hready : i.tready = true) (third : BitVec 640)
    (hthird : third = dataCh1 ∨ k < 2) :
    (setOf third s₀).take (k + 1) = (setOf third s₀).take k ++ (beat s i).toList := by
  have hbeat : beat s i = (setOf dataCh1 s₀)[k]? := by
    rw [h.offered]
    simp [beat, h.tvalid, hready]
  have hsame : (setOf third s₀)[k]? = (setOf dataCh1 s₀)[k]? := by
    rcases hthird with rfl | hk
    · rfl
    · obtain rfl | rfl : k = 0 ∨ k = 1 := by omega
      · rfl
      · rfl
  rw [List.take_add_one, hsame, hbeat]

end Edge

/-! ## Runs -/

section Runs

variable {input : Nat → Inputs} {st : Nat → State} {third : BitVec 640} {n : Nat}

theorem beats_succ (n : Nat) :
    beats input st (n + 1) = beats input st n ++ (beat (st n) (input n)).toList :=
  events_add _ n 1

theorem starts_succ (h : begins (st n) = false) : starts st (n + 1) = starts st n :=
  events_succ_none (by simp [h])

theorem starts_succ_begins (h : begins (st n) = true) : starts st (n + 1) = starts st n ++ [n] :=
  events_succ_some (by simp [h])

/-- The sets of some starts. -/
def setsOf (third : BitVec 640) (st : Nat → State) (ms : List Nat) : List Beat :=
  ms.flatMap fun m => setOf third (st m)

theorem setsOf_append (ms : List Nat) (m : Nat) :
    setsOf third st (ms ++ [m]) = setsOf third st ms ++ setOf third (st m) := by
  simp [setsOf]

/-- What was transferred in `n` cycles, as the state machine sees it. -/
def Sent (third : BitVec 640) (input : Nat → Inputs) (st : Nat → State) (n : Nat) : Prop :=
  ((st n).srcState = .stIdle ∧ (st n).tvalid = false ∧
      beats input st n = setsOf third st (starts st n)) ∨
    ∃ ms m, starts st n = ms ++ [m] ∧
      (((st n).srcState = .stWord0 ∧ (st n).tvalid = false ∧ Latched (st m) (st n) ∧
          beats input st n = setsOf third st ms) ∨
        ∃ k, Offers (st m) k (st n) ∧
          beats input st n = setsOf third st ms ++ (setOf third (st m)).take k)

/-- One cycle.  A third record that is taken has the payload of the second one. -/
theorem Sent.step (h : Run input st) (hsent : Sent third input st n)
    (hthird : third = dataCh1 ∨ ((st n).srcState = .stEnd → (input n).tready = false)) :
    Sent third input st (n + 1) := by
  have hr := h.noReset n
  unfold Sent
  rw [beats_succ, h.edge n]
  obtain ⟨hs, hvalid, hbeats⟩ | ⟨ms, m, hms, ⟨hs, hvalid, hl, hbeats⟩ | ⟨k, ho, hbeats⟩⟩ := hsent
  · rw [beat_of_not_valid hvalid, Option.toList_none, List.append_nil]
    cases hb : begins (st n) with
    | false =>
        obtain ⟨hs', hvalid'⟩ := next_idle hr hs hb hvalid
        rw [starts_succ hb]
        exact .inl ⟨hs', hvalid', hbeats⟩
    | true =>
        obtain ⟨hs', hvalid', hl⟩ := next_begins hr hb hvalid
        exact .inr ⟨_, n, starts_succ_begins hb, .inl ⟨hs', hvalid', hl, hbeats⟩⟩
  · have hb : begins (st n) = false := by simp [begins, hs]
    rw [beat_of_not_valid hvalid, Option.toList_none, List.append_nil, starts_succ hb]
    exact .inr ⟨ms, m, hms, .inr ⟨0, (next_word0 hr hs hl).1, by simpa using hbeats⟩⟩
  rw [starts_succ ho.not_begins]
  cases hready : (input n).tready with
  | false =>
      rw [beat_of_not_ready hready, Option.toList_none, List.append_nil]
      exact .inr ⟨ms, m, hms, .inr ⟨k, ho.stalled hr hready, hbeats⟩⟩
  | true =>
      by_cases hk : k < 2
      · have htaken := ho.taken hready third (.inr hk)
        refine .inr ⟨ms, m, hms, .inr ⟨k + 1, ho.step hr hready hk, ?_⟩⟩
        rw [hbeats, htaken, List.append_assoc]
      · obtain rfl : k = 2 := by
          have := ho.inside
          omega
        have hsame : third = dataCh1 := by
          rcases hthird with hsame | hstop
          · exact hsame
          · rw [hstop ho.srcState] at hready
            cases hready
        have htaken := ho.taken hready third (.inl hsame)
        obtain ⟨hs', hvalid'⟩ := ho.finish hr hready
        refine .inl ⟨hs', hvalid', ?_⟩
        rw [hbeats, List.append_assoc, ← htaken, hms, setsOf_append]
        rfl

theorem Run.sent (h : Run input st)
    (hthird : third = dataCh1 ∨ ∀ n, (st n).srcState = .stEnd → (input n).tready = false) (n : Nat) :
    Sent third input st n := by
  induction n with
  | zero =>
      obtain ⟨s, i, shiftReg, hi, h0⟩ := h.reset
      refine .inl ⟨?_, ?_, rfl⟩
      · rw [h0]
        simp only [next, p1, hi, if_true]
      · rw [h0]
        simp only [next, p1, hi, if_true]
  | succ n ih => exact ih.step h (hthird.imp_right fun hstop => hstop n)

theorem Sent.bounds (h : Sent third input st n) :
    setsOf third st (starts st n).dropLast <+: beats input st n ∧
      beats input st n <+: setsOf third st (starts st n) := by
  obtain ⟨-, -, hbeats⟩ | ⟨ms, m, hms, ⟨-, -, -, hbeats⟩ | ⟨k, -, hbeats⟩⟩ := h
  · rw [hbeats]
    refine ⟨?_, List.prefix_rfl⟩
    rcases List.eq_nil_or_concat (starts st n) with hnil | ⟨ms, m, hms⟩
    · rw [hnil]
      exact List.prefix_rfl
    · rw [hms, List.concat_eq_append, List.dropLast_concat, setsOf_append]
      exact List.prefix_append _ _
  · rw [hbeats, hms, List.dropLast_concat, setsOf_append]
    exact ⟨List.prefix_rfl, List.prefix_append _ _⟩
  · rw [hbeats, hms, List.dropLast_concat, setsOf_append]
    exact ⟨List.prefix_append _ _, (List.prefix_append_right_inj _).mpr (List.take_prefix k _)⟩

/-- A record that is not taken stays as it is. -/
theorem Run.stable (h : Run input st) (n : Nat) (hvalid : (st n).tvalid = true)
    (hready : (input n).tready = false) :
    (st (n + 1)).tvalid = true ∧ (st (n + 1)).sData = (st n).sData ∧
      (st (n + 1)).tlast = (st n).tlast := by
  obtain ⟨-, hno, -⟩ | ⟨ms, m, -, ⟨-, hno, -⟩ | ⟨k, ho, -⟩⟩ := h.sent (.inl rfl) n
  · rw [hvalid] at hno
    cases hno
  · rw [hvalid] at hno
    cases hno
  · have ho' := ho.stalled (h.noReset n) hready
    rw [← h.edge] at ho'
    have hsame := Option.some.inj (ho'.offered.symm.trans ho.offered)
    exact ⟨ho'.tvalid, congrArg Beat.tdata hsame, congrArg Beat.tlast hsame⟩

/-- A start is acknowledged two cycles later, when the next set cannot have been started. -/
theorem Run.acknowledged (h : Run input st) {m : Nat} (hb : begins (st m) = true) :
    begins (st (m + 1)) = false ∧ begins (st (m + 2)) = false ∧ (st (m + 2)).ackPkt = true := by
  have hvalid : (st m).tvalid = false := by
    have hs := (begins_iff.mp hb).1
    obtain ⟨-, hvalid, -⟩ | ⟨ms, m', -, ⟨-, hvalid, -⟩ | ⟨k, ho, -⟩⟩ := h.sent (.inl rfl) m
    · exact hvalid
    · exact hvalid
    · rw [ho.not_begins] at hb
      cases hb
  obtain ⟨hs, -, hl⟩ := next_begins (h.noReset m) hb hvalid
  rw [← h.edge] at hs hl
  obtain ⟨ho, hack⟩ := next_word0 (h.noReset (m + 1)) hs hl
  rw [← h.edge] at ho hack
  exact ⟨by simp [begins, hs], ho.not_begins, hack⟩

/-- A request that is waiting was made, and nothing was acknowledged since. -/
theorem Run.waiting (h : Run input st) (n : Nat) (hstart : (st n).pacing.startPkt = true) :
    ∃ r, r < n ∧ asks (st r) (input r) = true ∧ ∀ j, r < j → j < n → ¬(st j).ackPkt = true := by
  induction n with
  | zero =>
      obtain ⟨s, i, shiftReg, hi, h0⟩ := h.reset
      rw [h0] at hstart
      simp [next, pace, hi] at hstart
  | succ n ih =>
      refine waits_succ ih ?_
      rw [h.edge n] at hstart
      rcases pace_startPkt hstart with hasks | ⟨hwaits, hack⟩
      · exact .inl hasks
      · exact .inr ⟨hwaits, by simp [hack]⟩

theorem Run.requested (h : Run input st) (m : Nat) (hb : begins (st m) = true) :
    ∃ r, r < m ∧ asks (st r) (input r) = true ∧ ∀ m', m' < m → begins (st m') = true → m' < r := by
  obtain ⟨r, hr, hasks, hno⟩ := h.waiting m (begins_iff.mp hb).2
  refine ⟨r, hr, hasks, fun m' hm' hb' => ?_⟩
  obtain ⟨hb1, hb2, hack⟩ := h.acknowledged hb'
  have hne1 : m ≠ m' + 1 := by
    rintro rfl
    rw [hb] at hb1
    cases hb1
  have hne2 : m ≠ m' + 2 := by
    rintro rfl
    rw [hb] at hb2
    cases hb2
  exact Nat.lt_of_not_le fun hle => hno (m' + 2) (by omega) (by omega) hack

theorem Run.wellFormed (h : Run input st)
    (hthird : third = dataCh1 ∨ ∀ n, (st n).srcState = .stEnd → (input n).tready = false) :
    WellFormed third input st where
  sets := ⟨fun m => vChnNum (st m).shiftReg, fun _ => vChnNum_bounds _,
    fun n => (h.sent hthird n).bounds⟩
  stable := h.stable
  requested := h.requested

/-- A third record that is taken ends a stream of whole sets, and its payload is `data_ch1`. -/
theorem WellFormed.not_taken (h : Run input st) (hwf : WellFormed dataCh2 input st) (n : Nat)
    (hs : (st n).srcState = .stEnd) : (input n).tready = false := by
  cases hready : (input n).tready with
  | false => rfl
  | true =>
      obtain ⟨hs', -⟩ | ⟨ms, m, hms, ⟨hs', -⟩ | ⟨k, ho, hbeats⟩⟩ := h.sent (.inl rfl) n
      · rw [hs] at hs'
        cases hs'
      · rw [hs] at hs'
        cases hs'
      obtain rfl : k = 2 := by
        have hk := ho.srcState
        have hlt := ho.inside
        rw [hs] at hk
        obtain rfl | rfl | rfl : k = 0 ∨ k = 1 ∨ k = 2 := by omega
        · cases hk
        · cases hk
        · rfl
      obtain ⟨chn, -, hsets⟩ := hwf.sets
      have hdone : beats input st (n + 1) = setsOf dataCh1 st (ms ++ [m]) := by
        rw [beats_succ, hbeats, List.append_assoc, ← ho.taken hready dataCh1 (.inl rfl),
          setsOf_append]
        rfl
      have hprefix := (hsets (n + 1)).2
      rw [hdone, starts_succ ho.not_begins, hms] at hprefix
      have heq := hprefix.eq_of_length (by simp only [setsOf, setOf, length_sets])
      have hlast := congrArg List.getLast? heq
      simp only [setsOf_append, List.flatMap_append, List.flatMap_singleton, List.getLast?_append,
        setOf, records, List.getLast?_cons_cons, List.getLast?_singleton, Option.some_or,
        Option.some.injEq, Beat.mk.injEq, and_true] at hlast
      have hdata := congrArg (BitVec.extractLsb' 0 640) hlast
      rw [mkRec_data, mkRec_data] at hdata
      exact absurd hdata dataCh1_ne_dataCh2

/-- The source sends sets as described, but for the payload of the third record. -/
theorem record_source_wellFormed_iff (h : Run input st) :
    WellFormed dataCh1 input st ∧
      (WellFormed dataCh2 input st ↔
        ∀ n, (st n).srcState = .stEnd → (input n).tready = false) :=
  ⟨h.wellFormed (.inl rfl), WellFormed.not_taken h, fun hstop => h.wellFormed (.inr hstop)⟩

end Runs

/-- The source right after a reset. -/
def resetState : State :=
  { srcState := .stIdle, pktDel := 10, sData := 0, shiftReg := 1, ackPkt := false, tvalid := false,
    tlast := false, timestamp := 0, sTimestamp := 0, chnNum := 0, pacing := ⟨0, false⟩ }

/-- A consumer that is always ready. -/
def ready : Nat → Inputs := fun _ => ⟨true, true, true⟩

theorem ready_run : Run ready (stateAt next resetState ready) :=
  ⟨⟨resetState, ⟨false, true, true⟩, 1, rfl, rfl⟩, fun _ => rfl, fun _ => rfl⟩

/-- A consumer that takes two records and is not ready for the third one. -/
theorem record_source_stalled :
    let input : Nat → Inputs := fun n => ⟨true, decide (n < 15), true⟩
    let st := stateAt next resetState input
    (beats input st 15).length = 2 ∧ (st 15).srcState = .stEnd ∧ WellFormed dataCh2 input st := by
  intro input st
  have hbefore : ∀ n, n < 15 → (st n).srcState ≠ .stEnd := by decide +kernel
  refine ⟨by decide +kernel, by decide +kernel, (record_source_wellFormed_iff
    ⟨⟨resetState, ⟨false, true, true⟩, 1, rfl, rfl⟩, fun _ => rfl, fun _ => rfl⟩).2.mpr
      fun n hn => ?_⟩
  show decide (n < 15) = false
  exact decide_eq_false fun hlt => hbefore n hlt hn

/-- The third record of the first set. -/
theorem record_source_third_payload :
    Run ready (stateAt next resetState ready) ∧
      beat (stateAt next resetState ready 15) (ready 15) = some ⟨mkRec 33 11 dataCh1, true⟩ ∧
      ¬WellFormed dataCh2 ready (stateAt next resetState ready) := by
  refine ⟨ready_run, by decide +kernel, fun hwf => ?_⟩
  have hready := WellFormed.not_taken ready_run hwf 15 (by decide +kernel)
  cases hready

end RecordSource
end Hdl
end WzXdma
