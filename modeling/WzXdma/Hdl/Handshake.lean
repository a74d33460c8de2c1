import Mathlib.Data.Nat.Init
import WzXdma.Lib.Clocked
import WzXdma.Hdl.AxiRegs

/-!
# The handshakes of the register file

A run is a sequence of states from a reset on.  The bus master is described by what it
promises: it holds a `VALID` with its address or data until the `READY`, and it issues a
write, or a read, only after the previous one was answered.  Nothing is said about when
it raises a `VALID`, in which order, or how long it waits with `BREADY` and `RREADY`.

`Linked` relates the ready, valid and address registers of one cycle to the past of the
run, and everything about the handshakes follows from it.
-/

namespace WzXdma
namespace Hdl
namespace AxiRegs

open Lib.Clocked

/-- The states after a reset, with no further reset. -/
structure Run (input : Nat → Inputs) (st : Nat → State) : Prop where
  reset : ∃ s i, i.aresetn = false ∧ st 0 = next s i
  edge : ∀ n, st (n + 1) = next (st n) (input n)
  noReset : ∀ n, (input n).aresetn = true

/-- The write address is transferred at the end of the cycle. -/
def AwAccepted (s : State) (i : Inputs) : Prop :=
  i.awvalid = true ∧ s.axiAwready = true

def WAccepted (s : State) (i : Inputs) : Prop :=
  i.wvalid = true ∧ s.axiWready = true

def BAccepted (s : State) (i : Inputs) : Prop :=
  s.axiBvalid = true ∧ i.bready = true

def ArAccepted (s : State) (i : Inputs) : Prop :=
  i.arvalid = true ∧ s.axiArready = true

def RAccepted (s : State) (i : Inputs) : Prop :=
  s.axiRvalid = true ∧ i.rready = true

instance (s : State) (i : Inputs) : Decidable (AwAccepted s i) :=
  inferInstanceAs (Decidable (_ ∧ _))

instance (s : State) (i : Inputs) : Decidable (ArAccepted s i) :=
  inferInstanceAs (Decidable (_ ∧ _))

/-- What the bus master promises. -/
structure Master (input : Nat → Inputs) (st : Nat → State) : Prop where
  awHold : ∀ n, (input n).awvalid = true → (st n).axiAwready = false →
    (input (n + 1)).awvalid = true ∧ (input (n + 1)).awaddr = (input n).awaddr
  wHold : ∀ n, (input n).wvalid = true → (st n).axiWready = false →
    (input (n + 1)).wvalid = true ∧ (input (n + 1)).wdata = (input n).wdata
  arHold : ∀ n, (input n).arvalid = true → (st n).axiArready = false →
    (input (n + 1)).arvalid = true ∧ (input (n + 1)).araddr = (input n).araddr
  awTurn : ∀ n k, AwAccepted (st n) (input n) → n < k → (input k).awvalid = true →
    ∃ m, n < m ∧ m < k ∧ BAccepted (st m) (input m)
  wTurn : ∀ n k, WAccepted (st n) (input n) → n < k → (input k).wvalid = true →
    ∃ m, n < m ∧ m < k ∧ BAccepted (st m) (input m)
  arTurn : ∀ n k, ArAccepted (st n) (input n) → n < k → (input k).arvalid = true →
    ∃ m, n < m ∧ m < k ∧ RAccepted (st m) (input m)

/-! ## What one edge does to the handshake registers -/

section Edge

variable {s : State} {i : Inputs}

theorem next_awready (hr : i.aresetn = true) :
    (next s i).axiAwready = (!s.axiAwready && i.awvalid && i.wvalid) := by
  simp [next, nextAwready, hr]

theorem next_wready (hr : i.aresetn = true) :
    (next s i).axiWready = (!s.axiWready && i.wvalid && i.awvalid) := by
  simp [next, nextWready, hr]

theorem next_awaddr (hr : i.aresetn = true) (h : (next s i).axiAwready = true) :
    (next s i).axiAwaddr = i.awaddr := by
  rw [next_awready hr] at h
  simp only [next, nextAwaddr, hr, h, if_true, Bool.true_eq_false, if_false]

theorem next_bvalid (hr : i.aresetn = true) :
    (next s i).axiBvalid =
      ((s.axiAwready && i.awvalid && !s.axiBvalid && s.axiWready && i.wvalid) ||
        (s.axiBvalid && !i.bready)) := by
  simp only [next, nextB, hr, Bool.true_eq_false, if_false]
  cases s.axiAwready <;> cases i.awvalid <;> cases s.axiBvalid <;> cases s.axiWready <;>
    cases i.wvalid <;> cases i.bready <;> rfl

theorem next_arready (hr : i.aresetn = true) :
    (next s i).axiArready = (!s.axiArready && i.arvalid) := by
  simp only [next, nextAr, hr, Bool.true_eq_false, if_false]
  cases s.axiArready <;> cases i.arvalid <;> rfl

theorem next_araddr (hr : i.aresetn = true) (h : (next s i).axiArready = true) :
    (next s i).axiAraddr = i.araddr := by
  rw [next_arready hr] at h
  simp only [next, nextAr, hr, h, if_true, Bool.true_eq_false, if_false]

theorem next_rvalid (hr : i.aresetn = true) :
    (next s i).axiRvalid =
      ((s.axiArready && i.arvalid && !s.axiRvalid) || (s.axiRvalid && !i.rready)) := by
  simp only [next, nextR, hr, Bool.true_eq_false, if_false]
  cases s.axiArready <;> cases i.arvalid <;> cases s.axiRvalid <;> cases i.rready <;> rfl

theorem slvRegRden_iff : slvRegRden s i = true ↔ ArAccepted s i ∧ s.axiRvalid = false := by
  simp only [slvRegRden, ArAccepted, Bool.and_eq_true, Bool.not_eq_true']
  exact and_congr_left fun _ => and_comm

/-- `RDATA` moves only with a read that is accepted while no response waits. -/
theorem next_rdata (hr : i.aresetn = true) :
    (next s i).axiRdata =
      if ArAccepted s i ∧ s.axiRvalid = false then regDataOut s else s.axiRdata := by
  show nextRdata s i = _
  rw [nextRdata, if_neg (by rw [hr]; decide)]
  by_cases h : slvRegRden s i = true
  · rw [if_pos h, if_pos (slvRegRden_iff.mp h)]
  · rw [if_neg h, if_neg fun hacc => h (slvRegRden_iff.mpr hacc)]

/-- All handshake registers are low after a reset. -/
theorem next_reset (hr : i.aresetn = false) :
    (next s i).axiAwready = false ∧ (next s i).axiWready = false ∧
      (next s i).axiBvalid = false ∧ (next s i).axiArready = false ∧
      (next s i).axiRvalid = false := by
  simp [next, nextAwready, nextWready, nextB, nextAr, nextR, hr]

end Edge

/-! ## The invariant -/

/-- The handshake registers in cycle `n`, in terms of what the master does and of the
requests accepted before. -/
structure Linked (input : Nat → Inputs) (st : Nat → State) (n : Nat) : Prop where
  ready : (st n).axiAwready = (st n).axiWready
  write : (st n).axiAwready = true → (input n).awvalid = true ∧ (input n).wvalid = true ∧
    (st n).axiAwaddr = (input n).awaddr ∧ (st n).axiBvalid = false
  bvalid : (st n).axiBvalid = true → ∃ m, m < n ∧ AwAccepted (st m) (input m) ∧
    ∀ j, m < j → j < n → ¬BAccepted (st j) (input j)
  read : (st n).axiArready = true → (input n).arvalid = true ∧
    (st n).axiAraddr = (input n).araddr ∧ (st n).axiRvalid = false
  rvalid : (st n).axiRvalid = true → ∃ m, m < n ∧ ArAccepted (st m) (input m) ∧
    ∀ j, m < j → j < n → ¬RAccepted (st j) (input j)

namespace Linked

variable {input : Nat → Inputs} {st : Nat → State} {n : Nat}

theorem start (h : Run input st) : Linked input st 0 := by
  obtain ⟨s, i, hi, h0⟩ := h.reset
  obtain ⟨haw, hw, hb, har, hr⟩ := next_reset (s := s) hi
  rw [← h0] at haw hw hb har hr
  constructor <;> simp [haw, hw, hb, har, hr]

/-- A waiting write response belongs to the last write. -/
theorem bvalid_succ (h : Run input st) (hl : Linked input st n)
    (hb : (st (n + 1)).axiBvalid = true) :
    ∃ m, m < n + 1 ∧ AwAccepted (st m) (input m) ∧
      ∀ j, m < j → j < n + 1 → ¬BAccepted (st j) (input j) := by
  rw [h.edge, next_bvalid (h.noReset n), Bool.or_eq_true] at hb
  refine waits_succ hl.bvalid ?_
  rcases hb with hacc | hwait
  · simp only [Bool.and_eq_true] at hacc
    exact .inl ⟨hacc.1.1.1.2, hacc.1.1.1.1⟩
  · simp only [Bool.and_eq_true, Bool.not_eq_true'] at hwait
    refine .inr ⟨hwait.1, fun hans => ?_⟩
    exact absurd (hans.2.symm.trans hwait.2) (by decide)

theorem rvalid_succ (h : Run input st) (hl : Linked input st n)
    (hb : (st (n + 1)).axiRvalid = true) :
    ∃ m, m < n + 1 ∧ ArAccepted (st m) (input m) ∧
      ∀ j, m < j → j < n + 1 → ¬RAccepted (st j) (input j) := by
  rw [h.edge, next_rvalid (h.noReset n), Bool.or_eq_true] at hb
  refine waits_succ hl.rvalid ?_
  rcases hb with hacc | hwait
  · simp only [Bool.and_eq_true] at hacc
    exact .inl ⟨hacc.1.2, hacc.1.1⟩
  · simp only [Bool.and_eq_true, Bool.not_eq_true'] at hwait
    refine .inr ⟨hwait.1, fun hans => ?_⟩
    exact absurd (hans.2.symm.trans hwait.2) (by decide)

theorem step (h : Run input st) (hm : Master input st) (hl : Linked input st n) :
    Linked input st (n + 1) := by
  have hr := h.noReset n
  have hbvalid := hl.bvalid_succ h
  have hrvalid := hl.rvalid_succ h
  refine ⟨?_, fun hready => ?_, hbvalid, fun hready => ?_, hrvalid⟩
  · rw [h.edge, next_awready hr, next_wready hr, hl.ready, Bool.and_assoc, Bool.and_assoc,
      Bool.and_comm (input n).awvalid]
  · have hlatch : (st (n + 1)).axiAwaddr = (input n).awaddr := by
      rw [h.edge] at hready ⊢
      exact next_awaddr hr hready
    rw [h.edge, next_awready hr] at hready
    simp only [Bool.and_eq_true, Bool.not_eq_true'] at hready
    obtain ⟨⟨hlow, hav⟩, hwv⟩ := hready
    obtain ⟨hav', haddr⟩ := hm.awHold n hav hlow
    obtain ⟨hwv', -⟩ := hm.wHold n hwv (hl.ready ▸ hlow)
    refine ⟨hav', hwv', hlatch.trans haddr.symm, ?_⟩
    -- a response that still waits would mean that the master did not wait for it
    by_contra hb
    obtain ⟨m, hmn, hacc, hno⟩ := hbvalid (by simpa using hb)
    obtain ⟨j, hmj, hjn, hans⟩ := hm.awTurn m (n + 1) hacc hmn hav'
    exact hno j hmj hjn hans
  · have hlatch : (st (n + 1)).axiAraddr = (input n).araddr := by
      rw [h.edge] at hready ⊢
      exact next_araddr hr hready
    rw [h.edge, next_arready hr] at hready
    simp only [Bool.and_eq_true, Bool.not_eq_true'] at hready
    obtain ⟨hav', haddr⟩ := hm.arHold n hready.2 hready.1
    refine ⟨hav', hlatch.trans haddr.symm, ?_⟩
    by_contra hb
    obtain ⟨m, hmn, hacc, hno⟩ := hrvalid (by simpa using hb)
    obtain ⟨j, hmj, hjn, hans⟩ := hm.arTurn m (n + 1) hacc hmn hav'
    exact hno j hmj hjn hans

end Linked

section Complete

variable {input : Nat → Inputs} {st : Nat → State}

theorem linked (h : Run input st) (hm : Master input st) (n : Nat) : Linked input st n := by
  induction n with
  | zero => exact .start h
  | succ n ih => exact ih.step h hm

/-- While `AWVALID` is up without a break, the address is the same. -/
theorem awaddr_held (hm : Master input st) {m n : Nat} (hmn : m ≤ n)
    (hv : ∀ k, m ≤ k → k ≤ n → (input k).awvalid = true) :
    (input m).awaddr = (input n).awaddr := by
  refine @eq_of_held _ (fun k => (input k).awvalid = true) (fun k => (input k).awaddr)
    (fun k hk hk' => ?_) m n hmn hv
  have hlow : (st k).axiAwready = false := by
    by_contra hready
    obtain ⟨j, hj, hj', -⟩ := hm.awTurn k (k + 1) ⟨hk, by simpa using hready⟩ (Nat.lt_succ_self k) hk'
    omega
  exact (hm.awHold k hk hlow).2

theorem wdata_held (hm : Master input st) {m n : Nat} (hmn : m ≤ n)
    (hv : ∀ k, m ≤ k → k ≤ n → (input k).wvalid = true) :
    (input m).wdata = (input n).wdata := by
  refine @eq_of_held _ (fun k => (input k).wvalid = true) (fun k => (input k).wdata)
    (fun k hk hk' => ?_) m n hmn hv
  have hlow : (st k).axiWready = false := by
    by_contra hready
    obtain ⟨j, hj, hj', -⟩ := hm.wTurn k (k + 1) ⟨hk, by simpa using hready⟩ (Nat.lt_succ_self k) hk'
    omega
  exact (hm.wHold k hk hlow).2

/-- A cycle with `AWREADY` up accepts a write, address and data together. -/
theorem accepted_iff (hl : ∀ n, Linked input st n) (n : Nat) :
    ((st n).axiAwready = true ↔ AwAccepted (st n) (input n)) ∧
      (WAccepted (st n) (input n) ↔ AwAccepted (st n) (input n)) ∧
      (slvRegWren (st n) (input n) = true ↔ AwAccepted (st n) (input n)) := by
  have hw := (hl n).write
  have hready := (hl n).ready
  simp only [AwAccepted, WAccepted, slvRegWren, Bool.and_eq_true]
  rw [← hready]
  cases hr : (st n).axiAwready with
  | false => simp
  | true =>
      obtain ⟨hav, hwv, -, -⟩ := hw hr
      simp [hav, hwv]

/-- A write response comes up exactly after the cycles that accept a write. -/
theorem bvalid_rises (h : Run input st) (hl : ∀ n, Linked input st n) (n : Nat) :
    (st n).axiBvalid = false ∧ (st (n + 1)).axiBvalid = true ↔ AwAccepted (st n) (input n) := by
  rw [h.edge, next_bvalid (h.noReset n)]
  constructor
  · rintro ⟨hlow, hb⟩
    simp only [hlow, Bool.false_and, Bool.or_false, Bool.and_eq_true] at hb
    exact ⟨hb.1.1.1.2, hb.1.1.1.1⟩
  · rintro ⟨hav, hready⟩
    obtain ⟨-, hwv, -, hb⟩ := (hl n).write hready
    have hwready := (hl n).ready
    rw [hready] at hwready
    simp [hb, hav, hready, hwv, ← hwready]

theorem rvalid_rises (h : Run input st) (hl : ∀ n, Linked input st n) (n : Nat) :
    (st n).axiRvalid = false ∧ (st (n + 1)).axiRvalid = true ↔ ArAccepted (st n) (input n) := by
  rw [h.edge, next_rvalid (h.noReset n)]
  constructor
  · rintro ⟨hlow, hb⟩
    simp only [hlow, Bool.false_and, Bool.or_false, Bool.and_eq_true] at hb
    exact ⟨hb.1.2, hb.1.1⟩
  · rintro ⟨hav, hready⟩
    obtain ⟨-, -, hb⟩ := (hl n).read hready
    simp [hb, hav, hready]

end Complete

/-- The handshakes of a run are complete. -/
structure HandshakesComplete (input : Nat → Inputs) (st : Nat → State) : Prop where
  /-- `AWREADY` and `WREADY` are equal, and they are up in the cycles that accept a write. -/
  ready : ∀ n, (st n).axiAwready = (st n).axiWready ∧
    ((st n).axiAwready = true ↔ AwAccepted (st n) (input n))
  /-- They last one cycle for each write. -/
  oneCycle : ∀ n, (st n).axiAwready = true → (st (n + 1)).axiAwready = false
  /-- Address and data are taken together, in the one cycle with the write enable. -/
  wren : ∀ n, (slvRegWren (st n) (input n) = true ↔ AwAccepted (st n) (input n)) ∧
    (WAccepted (st n) (input n) ↔ AwAccepted (st n) (input n))
  /-- The latched address and the data are those the master has put up for this write. -/
  presented : ∀ n, AwAccepted (st n) (input n) →
    (∀ m, m ≤ n → (∀ k, m ≤ k → k ≤ n → (input k).awvalid = true) →
      (st n).axiAwaddr = (input m).awaddr) ∧
    (∀ m, m ≤ n → (∀ k, m ≤ k → k ≤ n → (input k).wvalid = true) →
      (input n).wdata = (input m).wdata)
  /-- No response is up after the reset, and each comes up after an accepted request. -/
  quiet : (st 0).axiBvalid = false ∧ (st 0).axiRvalid = false
  bvalid : ∀ n, ((st n).axiBvalid = false ∧ (st (n + 1)).axiBvalid = true) ↔
    AwAccepted (st n) (input n)
  rvalid : ∀ n, ((st n).axiRvalid = false ∧ (st (n + 1)).axiRvalid = true) ↔
    ArAccepted (st n) (input n)
  /-- A response stays until it is accepted, and goes down then. -/
  bstable : ∀ n, (st n).axiBvalid = true → ((st (n + 1)).axiBvalid = true ↔
    (input n).bready = false)
  rstable : ∀ n, (st n).axiRvalid = true → ((st (n + 1)).axiRvalid = true ↔
    (input n).rready = false) ∧ ((st (n + 1)).axiRdata = (st n).axiRdata)

/-- From a reset on, whatever the timing of the master. -/
theorem axi_handshakes_complete (input : Nat → Inputs) (st : Nat → State) (h : Run input st)
    (hm : Master input st) : HandshakesComplete input st := by
  have hl := linked h hm
  refine ⟨fun n => ⟨(hl n).ready, (accepted_iff hl n).1⟩, fun n hready => ?_,
    fun n => ⟨(accepted_iff hl n).2.2, (accepted_iff hl n).2.1⟩, fun n hacc => ⟨?_, ?_⟩, ?_,
    bvalid_rises h hl, rvalid_rises h hl, fun n hb => ?_, fun n hr => ⟨?_, ?_⟩⟩
  · rw [h.edge, next_awready (h.noReset n), hready]
    rfl
  · intro m hmn hv
    rw [((hl n).write hacc.2).2.2.1, awaddr_held hm hmn hv]
  · intro m hmn hv
    exact (wdata_held hm hmn hv).symm
  · obtain ⟨s, i, hi, h0⟩ := h.reset
    obtain ⟨-, -, hb, -, hr⟩ := next_reset (s := s) hi
    rw [h0]
    exact ⟨hb, hr⟩
  · have hlow : (st n).axiAwready = false := by
      by_contra hready
      have := ((hl n).write (by simpa using hready)).2.2.2
      rw [hb] at this
      cases this
    rw [h.edge, next_bvalid (h.noReset n), hlow, hb]
    simp
  · have hlow : (st n).axiArready = false := by
      by_contra hready
      have := ((hl n).read (by simpa using hready)).2.2
      rw [hr] at this
      cases this
    rw [h.edge, next_rvalid (h.noReset n), hlow, hr]
    simp
  · rw [h.edge, next_rdata (h.noReset n), if_neg]
    rintro ⟨-, hlow⟩
    rw [hr] at hlow
    cases hlow

/-! ## A write followed by a read -/

/-- The master puts the address up first and the data a cycle later, leaves the response
waiting for two cycles and then reads. -/
def writeThenRead (waddr : BitVec 8) (wdata : Word) (raddr : BitVec 8) (n : Nat) : Inputs where
  aresetn := true
  awaddr := waddr
  awvalid := decide (n < 3)
  wdata := wdata
  wvalid := decide (1 ≤ n ∧ n < 3)
  bready := decide (5 ≤ n)
  araddr := raddr
  arvalid := decide (6 ≤ n ∧ n < 8)
  rready := true

/-- A reset cycle. -/
def resetInputs : Inputs where
  aresetn := false
  awaddr := 0
  awvalid := false
  wdata := 0
  wvalid := false
  bready := false
  araddr := 0
  arvalid := false
  rready := false

def resetState : State where
  axiAwaddr := 0
  axiAwready := false
  axiWready := false
  axiBresp := 0
  axiBvalid := false
  axiAraddr := 0
  axiArready := false
  axiRdata := 0
  axiRresp := 0
  axiRvalid := false
  regs := fun _ => 0

/-- The states of the write followed by a read. -/
def writeThenReadStates (waddr : BitVec 8) (wdata : Word) (raddr : BitVec 8) : Nat → State :=
  stateAt next (next resetState resetInputs) (writeThenRead waddr wdata raddr)

section WriteThenRead

variable (waddr : BitVec 8) (wdata : Word) (raddr : BitVec 8)

theorem writeThenRead_run :
    Run (writeThenRead waddr wdata raddr) (writeThenReadStates waddr wdata raddr) :=
  ⟨⟨resetState, resetInputs, rfl, rfl⟩, fun _ => rfl, fun _ => rfl⟩

theorem writeThenRead_master :
    Master (writeThenRead waddr wdata raddr) (writeThenReadStates waddr wdata raddr) := by
  have haw : ∀ n, n < 2 → (writeThenReadStates waddr wdata raddr n).axiAwready = false := by
    intro n hn
    have : n = 0 ∨ n = 1 := by omega
    rcases this with rfl | rfl <;> rfl
  have hw : ∀ n, n < 2 → (writeThenReadStates waddr wdata raddr n).axiWready = false := by
    intro n hn
    have : n = 0 ∨ n = 1 := by omega
    rcases this with rfl | rfl <;> rfl
  have haw2 : (writeThenReadStates waddr wdata raddr 2).axiAwready = true := rfl
  have hw2 : (writeThenReadStates waddr wdata raddr 2).axiWready = true := rfl
  have har6 : (writeThenReadStates waddr wdata raddr 6).axiArready = false := rfl
  have har7 : (writeThenReadStates waddr wdata raddr 7).axiArready = true := rfl
  constructor
  · intro n hv hready
    have hn : n < 3 := of_decide_eq_true hv
    have hn2 : n ≠ 2 := by
      rintro rfl
      rw [haw2] at hready
      cases hready
    exact ⟨decide_eq_true (show n + 1 < 3 by omega), rfl⟩
  · intro n hv hready
    have hn : 1 ≤ n ∧ n < 3 := of_decide_eq_true hv
    have hn2 : n ≠ 2 := by
      rintro rfl
      rw [hw2] at hready
      cases hready
    exact ⟨decide_eq_true (show 1 ≤ n + 1 ∧ n + 1 < 3 by omega), rfl⟩
  · intro n hv hready
    have hn : 6 ≤ n ∧ n < 8 := of_decide_eq_true hv
    have hn7 : n ≠ 7 := by
      rintro rfl
      rw [har7] at hready
      cases hready
    exact ⟨decide_eq_true (show 6 ≤ n + 1 ∧ n + 1 < 8 by omega), rfl⟩
  · intro n k hacc hnk hv
    have hk : k < 3 := of_decide_eq_true hv
    rw [AwAccepted, haw n (by omega)] at hacc
    exact absurd hacc.2 (by decide)
  · intro n k hacc hnk hv
    have hk : 1 ≤ k ∧ k < 3 := of_decide_eq_true hv
    rw [WAccepted, hw n (by omega)] at hacc
    exact absurd hacc.2 (by decide)
  · intro n k hacc hnk hv
    have hk : 6 ≤ k ∧ k < 8 := of_decide_eq_true hv
    have hn : 6 ≤ n ∧ n < 8 := of_decide_eq_true hacc.1
    obtain rfl : n = 6 := by omega
    rw [ArAccepted, har6] at hacc
    exact absurd hacc.2 (by decide)

end WriteThenRead

/-- The write is accepted in cycle 2 and the read in cycle 7. -/
theorem axi_handshakes_complete_write_read :
    ∃ (input : Nat → Inputs) (st : Nat → State), Run input st ∧ Master input st ∧
      AwAccepted (st 2) (input 2) ∧ ArAccepted (st 7) (input 7) ∧ HandshakesComplete input st :=
  ⟨_, _, writeThenRead_run 0x50 7 0x50, writeThenRead_master 0x50 7 0x50, ⟨rfl, rfl⟩, ⟨rfl, rfl⟩,
    axi_handshakes_complete _ _ (writeThenRead_run 0x50 7 0x50) (writeThenRead_master 0x50 7 0x50)⟩

end AxiRegs
end Hdl
end WzXdma
