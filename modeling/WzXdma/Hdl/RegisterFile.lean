import WzXdma.Hdl.Handshake

/-!
# The register file as a memory

Seen through the bus, the registers should be a memory of 64 words whose first ten are
constants.  `lastWritten` is that memory as the accepted writes define it.  The two
decoders agree on the indices 10 to 61.  The last two labels of the write decoder repeat
those of 46 and 47, so a write to 62 or 63 is accepted and lost.
-/

namespace WzXdma
namespace Hdl
namespace AxiRegs

open Lib.Clocked

/-- The value of the last write to index `a` accepted before cycle `n`, 0 without one. -/
def lastWritten (input : Nat → Inputs) (st : Nat → State) (a : BitVec 6) : Nat → Word
  | 0 => 0
  | n + 1 =>
      if AwAccepted (st n) (input n) ∧ wordIndex (input n).awaddr = a then (input n).wdata
      else lastWritten input st a n

/-- What the indices 0 to 9 hold. -/
def constants : List Word :=
  [0x53480100, 0, 0x007010EE, 0x13331570, 0x00010001, 1540481158, 0x74657374, 0x58444D41,
    0x676E696D, 0]

/-- Cycle `m` answers the read that cycle `n` accepted. -/
structure Answers (input : Nat → Inputs) (st : Nat → State) (n m : Nat) : Prop where
  request : ArAccepted (st n) (input n)
  after : n < m
  answer : RAccepted (st m) (input m)
  first : ∀ j, n < j → j < m → ¬RAccepted (st j) (input j)

/-- Reads and writes of a run behave as those of a memory. -/
structure ActsAsMemory (input : Nat → Inputs) (st : Nat → State) : Prop where
  /-- A read returns the last value written. -/
  reads : ∀ n m, Answers input st n m → 10 ≤ (wordIndex (input n).araddr).toNat →
    (st m).axiRdata = lastWritten input st (wordIndex (input n).araddr) n
  /-- The first ten words are constant. -/
  constant : ∀ n m v, Answers input st n m → constants[(wordIndex (input n).araddr).toNat]? = some v →
    (st m).axiRdata = v
  /-- A write changes no other register. -/
  writes : ∀ n b, AwAccepted (st n) (input n) → b ≠ wordIndex (input n).awaddr →
    (st (n + 1)).regAt b = (st n).regAt b

/-! ## The two tables -/

/-- The register the address map has at an index. -/
def regOf (a : BitVec 6) : Reg :=
  match a.toNat with
  | 10 => .slvReg10
  | 11 => .slvReg11
  | 12 => .slvReg12
  | 13 => .slvReg13
  | 14 => .slvReg14
  | 15 => .devScratchReg
  | i => .slvRegs i

def Reg.index : Reg → Nat
  | .slvReg10 => 10
  | .slvReg11 => 11
  | .slvReg12 => 12
  | .slvReg13 => 13
  | .slvReg14 => 14
  | .devScratchReg => 15
  | .slvRegs i => i

theorem index_regOf : ∀ a : BitVec 6, (regOf a).index = a.toNat := by
  decide +kernel

theorem readDecoder_reg : ∀ a : BitVec 6, 10 ≤ a.toNat →
    readDecoder.lookup a = some (.reg (regOf a)) := by
  decide +kernel

theorem readDecoder_const : ∀ a : BitVec 6, a.toNat < 10 →
    readDecoder.lookup a = constants[a.toNat]?.map Source.const := by
  decide +kernel

theorem writeDecoder_reg : ∀ a : BitVec 6, 10 ≤ a.toNat → a.toNat < 62 →
    writeDecoder.lookup a = some (regOf a) := by
  decide +kernel

/-- No label of the write decoder fits the constants and the last two registers. -/
theorem writeDecoder_none : ∀ a : BitVec 6, a.toNat < 10 ∨ 62 ≤ a.toNat →
    writeDecoder.lookup a = none := by
  decide +kernel

theorem regAt_reg (s : State) {a : BitVec 6} (h : 10 ≤ a.toNat) : s.regAt a = s.regs (regOf a) := by
  rw [State.regAt, readDecoder_reg a h]

theorem regAt_const (s : State) {a : BitVec 6} {v : Word} (h : constants[a.toNat]? = some v) :
    s.regAt a = v := by
  have hlt : a.toNat < 10 := (List.getElem?_eq_some_iff.mp h).1
  rw [State.regAt, readDecoder_const a hlt, h]
  rfl

/-! ## One edge -/

section Edge

variable {s : State} {i : Inputs}

theorem next_regs (hr : i.aresetn = true) (a : BitVec 6) (ha : wordIndex s.axiAwaddr = a) :
    (next s i).regs =
      if slvRegWren s i = true ∧ 10 ≤ a.toNat ∧ a.toNat < 62 then
        Function.update s.regs (regOf a) i.wdata
      else s.regs := by
  show nextRegs s i = _
  rw [nextRegs, if_neg (by rw [hr]; decide), ha]
  by_cases hw : slvRegWren s i = true
  · rw [if_pos hw]
    by_cases hin : 10 ≤ a.toNat ∧ a.toNat < 62
    · rw [if_pos ⟨hw, hin⟩, writeDecoder_reg a hin.1 hin.2]
    · rw [if_neg fun h => hin h.2, writeDecoder_none a (by omega)]
  · rw [if_neg hw, if_neg fun h => hw h.1]

/-- A write does not show at another index. -/
theorem next_regAt_ne (hr : i.aresetn = true) {b : BitVec 6} (hb : b ≠ wordIndex s.axiAwaddr) :
    (next s i).regAt b = s.regAt b := by
  by_cases h10 : 10 ≤ b.toNat
  · rw [regAt_reg _ h10, regAt_reg _ h10, next_regs hr _ rfl]
    split
    · refine Function.update_of_ne (fun hreg => hb ?_) _ _
      have := congrArg Reg.index hreg
      rw [index_regOf, index_regOf] at this
      exact BitVec.eq_of_toNat_eq this
    · rfl
  · obtain ⟨v, hv⟩ : ∃ v, constants[b.toNat]? = some v :=
      ⟨_, List.getElem?_eq_getElem (show b.toNat < 10 by omega)⟩
    rw [regAt_const _ hv, regAt_const _ hv]

/-- The index that is written shows the data, if the write decoder has it. -/
theorem next_regAt_self (hr : i.aresetn = true) {a : BitVec 6} (ha : wordIndex s.axiAwaddr = a)
    (h10 : 10 ≤ a.toNat) :
    (next s i).regAt a =
      if slvRegWren s i = true ∧ a.toNat < 62 then i.wdata else s.regAt a := by
  rw [regAt_reg _ h10, regAt_reg _ h10, next_regs hr a ha]
  by_cases h : slvRegWren s i = true ∧ a.toNat < 62
  · rw [if_pos ⟨h.1, h10, h.2⟩, if_pos h]
    exact Function.update_self _ _ _
  · rw [if_neg fun hc => h ⟨hc.1, hc.2.2⟩, if_neg h]

theorem next_regAt_reset (hr : i.aresetn = false) {a : BitVec 6} (h10 : 10 ≤ a.toNat) :
    (next s i).regAt a = 0 := by
  rw [regAt_reg _ h10]
  show nextRegs s i _ = 0
  rw [nextRegs, if_pos hr]

end Edge

/-! ## Runs -/

section Runs

variable {input : Nat → Inputs} {st : Nat → State}

/-- The registers of a run: those of 10 to 61 hold what was written last, the last two
never leave 0. -/
theorem regAt_eq_lastWritten (h : Run input st) (hl : ∀ n, Linked input st n) (n : Nat)
    {a : BitVec 6} (h10 : 10 ≤ a.toNat) :
    (st n).regAt a = if a.toNat < 62 then lastWritten input st a n else 0 := by
  induction n with
  | zero =>
      obtain ⟨s, i, hi, h0⟩ := h.reset
      rw [h0, next_regAt_reset hi h10]
      exact (ite_self 0).symm
  | succ n ih =>
      have hr := h.noReset n
      have hwren := (accepted_iff hl n).2.2
      rw [h.edge]
      by_cases hacc : AwAccepted (st n) (input n) ∧ wordIndex (input n).awaddr = a
      · have haddr := ((hl n).write hacc.1.2).2.2.1
        rw [lastWritten, if_pos hacc, next_regAt_self hr (by rw [haddr, hacc.2]) h10, ih]
        by_cases h62 : a.toNat < 62
        · rw [if_pos ⟨hwren.mpr hacc.1, h62⟩, if_pos h62]
        · rw [if_neg fun hc => h62 hc.2, if_neg h62, if_neg h62]
      · rw [lastWritten, if_neg hacc, ← ih]
        by_cases ha : a = wordIndex (st n).axiAwaddr
        · rw [next_regAt_self hr ha.symm h10, if_neg]
          rintro ⟨hw, -⟩
          have hwrite := hwren.mp hw
          have haddr := ((hl n).write hwrite.2).2.2.1
          exact hacc ⟨hwrite, by rw [ha, haddr]⟩
        · exact next_regAt_ne hr ha

/-- The response to a read carries what the multiplexer showed when the address was
accepted. -/
theorem answer_rdata (h : Run input st) (hl : ∀ n, Linked input st n) {n m : Nat}
    (ha : Answers input st n m) :
    (st m).axiRdata = (st n).regAt (wordIndex (input n).araddr) := by
  obtain ⟨-, haddr, hlow⟩ := (hl n).read ha.request.2
  have hfirst : (st (n + 1)).axiRdata = (st n).regAt (wordIndex (input n).araddr) := by
    rw [h.edge, next_rdata (h.noReset n), if_pos ⟨ha.request, hlow⟩, regDataOut, haddr]
  have hrise := (rvalid_rises h hl n).mpr ha.request
  -- the response waits, unchanged, from the cycle after the request to its answer
  have hwait : ∀ j, n + 1 ≤ j → j ≤ m →
      (st j).axiRvalid = true ∧ (st j).axiRdata = (st (n + 1)).axiRdata := by
    intro j hj hjm
    induction j, hj using Nat.le_induction with
    | base => exact ⟨hrise.2, rfl⟩
    | succ j hj ih =>
        obtain ⟨hv, hd⟩ := ih (by omega)
        have hnot : (input j).rready = false := by
          by_contra hready
          exact ha.first j (by omega) (by omega) ⟨hv, by simpa using hready⟩
        constructor
        · rw [h.edge, next_rvalid (h.noReset j), hv, hnot]
          simp
        · rw [h.edge, next_rdata (h.noReset j), if_neg, hd]
          rintro ⟨-, hv'⟩
          rw [hv] at hv'
          cases hv'
  rw [(hwait m ha.after (Nat.le_refl m)).2, hfirst]

end Runs

/-- The register file is a memory exactly as long as no read of 62 or 63 should return
something else than 0. -/
theorem regs_act_as_memory_iff (input : Nat → Inputs) (st : Nat → State) (h : Run input st)
    (hm : Master input st) :
    ActsAsMemory input st ↔
      ∀ n m, Answers input st n m → 62 ≤ (wordIndex (input n).araddr).toNat →
        lastWritten input st (wordIndex (input n).araddr) n = 0 := by
  have hl := linked h hm
  constructor
  · intro hmem n m ha h62
    rw [← hmem.reads n m ha (by omega), answer_rdata h hl ha,
      regAt_eq_lastWritten h hl n (by omega), if_neg (by omega)]
  · intro hlast
    refine ⟨fun n m ha h10 => ?_, fun n m v ha hv => ?_, fun n b hacc hb => ?_⟩
    · rw [answer_rdata h hl ha, regAt_eq_lastWritten h hl n h10]
      by_cases h62 : (wordIndex (input n).araddr).toNat < 62
      · rw [if_pos h62]
      · rw [if_neg h62, hlast n m ha (by omega)]
    · rw [answer_rdata h hl ha]
      exact regAt_const _ hv
    · rw [h.edge]
      refine next_regAt_ne (h.noReset n) ?_
      rw [((hl n).write hacc.2).2.2.1]
      exact hb

/-- Index 20 is written with 7 and read back. -/
theorem regs_act_as_memory_twenty :
    ∃ (input : Nat → Inputs) (st : Nat → State), Run input st ∧ Master input st ∧
      Answers input st 7 8 ∧ (st 8).axiRdata = 7 ∧ ActsAsMemory input st := by
  have hrun := writeThenRead_run 0x50 7 0x50
  have hmaster := writeThenRead_master 0x50 7 0x50
  refine ⟨_, _, hrun, hmaster, ⟨⟨rfl, rfl⟩, by omega, ⟨rfl, rfl⟩, by omega⟩, by decide +kernel,
    (regs_act_as_memory_iff _ _ hrun hmaster).mpr fun n m _ h62 => ?_⟩
  have hidx : (wordIndex 0x50).toNat = 20 := by decide
  have h62' : 62 ≤ (wordIndex 0x50).toNat := h62
  omega

/-- Index 62 is written with 7 and reads as 0. -/
theorem regs_lose_write_sixty_two :
    ∃ (input : Nat → Inputs) (st : Nat → State), Run input st ∧ Master input st ∧
      Answers input st 7 8 ∧ wordIndex (input 7).araddr = 62 ∧
      lastWritten input st 62 7 = 7 ∧ (st 8).axiRdata = 0 ∧ ¬ActsAsMemory input st := by
  have ha : Answers (writeThenRead 0xF8 7 0xF8) (writeThenReadStates 0xF8 7 0xF8) 7 8 :=
    ⟨⟨rfl, rfl⟩, by omega, ⟨rfl, rfl⟩, by omega⟩
  have hw : lastWritten (writeThenRead 0xF8 7 0xF8) (writeThenReadStates 0xF8 7 0xF8) 62 7 = 7 := by
    decide +kernel
  have hread : (writeThenReadStates 0xF8 7 0xF8 8).axiRdata = 0 := by decide +kernel
  refine ⟨_, _, writeThenRead_run 0xF8 7 0xF8, writeThenRead_master 0xF8 7 0xF8, ha, rfl, hw, hread,
    fun hmem => ?_⟩
  have hidx : wordIndex (writeThenRead 0xF8 7 0xF8 7).araddr = 62 := rfl
  have := hmem.reads 7 8 ha (by rw [hidx]; decide)
  rw [hidx, hw, hread] at this
  exact absurd this (by decide)

end AxiRegs
end Hdl
end WzXdma
