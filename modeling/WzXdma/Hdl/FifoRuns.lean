import WzXdma.Hdl.AxisFifo

/-!
# What comes out of the FIFO

Runs of the FIFO from a reset on.  The write address is not reset: it follows the write
pointer one cycle later, so a reset must last two cycles, and a word that is offered in its
last cycle is counted by the address and not by the pointer.
-/

namespace WzXdma
namespace Hdl
namespace AxisFifo

open Lib.Clocked

variable {addrWidth : Nat} {α : Type}

/-- `rst` is high in the first `reset` cycles and low from then on. -/
structure Run (reset : Nat) (input : Nat → Inputs α) (st : Nat → State addrWidth α) : Prop where
  edge : ∀ n, st (n + 1) = next (st n) (input n)
  rst : ∀ n, (input n).rst = decide (n < reset)

/-- The words taken in in the `n` cycles from cycle `a` on. -/
def accepted (input : Nat → Inputs α) (st : Nat → State addrWidth α) (a n : Nat) : List α :=
  events (fun k => accepts (st (a + k)) (input (a + k))) n

/-- The words that leave in the `n` cycles from cycle `a` on. -/
def emitted (input : Nat → Inputs α) (st : Nat → State addrWidth α) (a n : Nat) : List α :=
  events (fun k => emits (st (a + k)) (input (a + k))) n

/-- A word is offered in the last cycle of the reset and in the cycle after it. -/
def offersThrough (reset : Nat) (input : Nat → Inputs α) : Bool :=
  (input (reset - 1)).inputAxisTvalid && (input reset).inputAxisTvalid

variable {reset : Nat} {input : Nat → Inputs α} {st : Nat → State addrWidth α}

theorem Run.rst_low (hrun : Run reset input st) (n : Nat) : (input (reset + n)).rst = false := by
  rw [hrun.rst, decide_eq_false]
  omega

theorem Run.edge_from (hrun : Run reset input st) (a n : Nat) :
    st (a + (n + 1)) = next (st (a + n)) (input (a + n)) :=
  hrun.edge (a + n)

/-- After two cycles of reset. -/
theorem Run.cleared (hrun : Run reset input st) (hreset : 2 ≤ reset) :
    Cleared (st reset) ∧ (st reset).rdAddrReg = 0 ∧
      (st reset).wrAddrReg =
        BitVec.ofNat (addrWidth + 1) (input (reset - 1)).inputAxisTvalid.toNat := by
  obtain ⟨r, rfl⟩ : ∃ r, reset = r + 2 := ⟨reset - 2, by omega⟩
  have hfirst : Cleared (st (r + 1)) := by
    rw [hrun.edge r]
    exact cleared_of_rst (by rw [hrun.rst, decide_eq_true (by omega)])
  rw [hrun.edge (r + 1)]
  obtain ⟨hwr, hrd⟩ := @Cleared.addr _ _ _ (input (r + 1)) hfirst
  exact ⟨cleared_of_rst (by rw [hrun.rst, decide_eq_true (by omega)]), hrd, hwr⟩

/-- From a cycle after the reset on, what was inside and what came in is what went out and what
is inside. -/
theorem Run.holds (hrun : Run reset input st) {a : Nat} (ha : reset ≤ a) {q : List α}
    (hq : Holds q (st a)) (n : Nat) :
    ∃ q', Holds q' (st (a + n)) ∧ q ++ accepted input st a n = emitted input st a n ++ q' := by
  refine @Queues.run _ _ _ next accepts emits _ Holds queues (fun k => input (a + k))
    (fun k => st (a + k)) (hrun.edge_from a) (fun k => ?_) q hq n
  rw [hrun.rst, decide_eq_false]
  omega

theorem accepted_succ (a n : Nat) :
    accepted input st a (n + 1) =
      (accepts (st a) (input a)).toList ++ accepted input st (a + 1) n := by
  unfold accepted
  rw [events_succ_left]
  congr 2
  funext k
  rw [Nat.add_assoc, Nat.add_comm 1 k]

theorem emitted_succ (a n : Nat) :
    emitted input st a (n + 1) = (emits (st a) (input a)).toList ++ emitted input st (a + 1) n := by
  unfold emitted
  rw [events_succ_left]
  congr 2
  funext k
  rw [Nat.add_assoc, Nat.add_comm 1 k]

theorem emitted_split (a n k : Nat) :
    emitted input st a (n + k) = emitted input st a n ++ emitted input st (a + n) k := by
  unfold emitted
  rw [events_split]
  congr 2
  funext j
  rw [Nat.add_assoc a n j]

/-- In the cycle after the reset nothing leaves, and the FIFO holds the word that was taken in
unless it was written to the wrong place. -/
theorem Run.holds_succ (hrun : Run reset input st) (hreset : 2 ≤ reset) (hwidth : 0 < addrWidth) :
    emits (st reset) (input reset) = none ∧
      Holds (if offersThrough reset input then [(st reset).mem 0]
        else (accepts (st reset) (input reset)).toList) (st (reset + 1)) := by
  obtain ⟨hcleared, hrd, hwr⟩ := hrun.cleared hreset
  refine ⟨hcleared.emits, ?_⟩
  have hlow := hrun.rst_low 0
  rw [Nat.add_zero] at hlow
  rw [hrun.edge reset, offersThrough, hcleared.accepts]
  cases hlast : (input (reset - 1)).inputAxisTvalid with
  | false =>
      rw [hlast] at hwr
      rw [Bool.false_and, if_neg Bool.false_ne_true]
      obtain ⟨q', hq', heq⟩ := queues [] (st reset) (input reset) (hcleared.holds hwr hrd) hlow
      rw [hcleared.emits, hcleared.accepts, List.nil_append, Option.toList_none,
        List.nil_append] at heq
      rwa [heq]
  | true =>
      rw [hlast] at hwr
      rw [Bool.true_and]
      cases hvalid : (input reset).inputAxisTvalid with
      | false =>
          rw [if_neg Bool.false_ne_true, if_neg Bool.false_ne_true]
          exact hcleared.next_idle hlow hvalid
      | true =>
          rw [if_pos rfl]
          exact hcleared.next_misplaced hwidth hlow hwr hvalid

/-- What the FIFO holds after a reset, in terms of what it has accepted since. -/
theorem Run.exists_holds (hrun : Run reset input st) (hreset : 2 ≤ reset) (hwidth : 0 < addrWidth)
    (n : Nat) :
    ∃ q, Holds q (st (reset + (n + 1))) ∧
      (if offersThrough reset input then
          (accepted input st reset (n + 1)).modifyHead fun _ => (st reset).mem 0
        else accepted input st reset (n + 1)) =
        emitted input st reset (n + 1) ++ q := by
  obtain ⟨hnone, hholds⟩ := hrun.holds_succ hreset hwidth
  obtain ⟨q, hq, heq⟩ := hrun.holds (Nat.le_succ reset) hholds n
  refine ⟨q, ?_, ?_⟩
  · rw [show reset + (n + 1) = reset + 1 + n by omega]
    exact hq
  · rw [emitted_succ, hnone, Option.toList_none, List.nil_append, ← heq, accepted_succ]
    cases hoff : offersThrough reset input with
    | false => rfl
    | true =>
        rw [if_pos rfl, if_pos rfl]
        obtain ⟨-, hvalid⟩ := (Bool.and_eq_true ..).mp hoff
        rw [(hrun.cleared hreset).1.accepts, hvalid, if_pos rfl]
        rfl

/-- The FIFO gives out what it has accepted, in order, nothing lost and nothing twice.  It
refuses a word only when its memory is full, and keeps offering a word until it is taken. -/
structure KeepsOrder (reset : Nat) (input : Nat → Inputs α) (st : Nat → State addrWidth α) :
    Prop where
  inOrder : ∀ n, ∃ q, accepted input st reset n = emitted input st reset n ++ q ∧
    q.length ≤ 2 ^ addrWidth + (st (reset + n)).memReadDataValidReg.toNat +
      (st (reset + n)).outputAxisTvalidReg.toNat ∧
    (inputAxisTready (st (reset + n)) = true ↔
      q.length < 2 ^ addrWidth + (st (reset + n)).memReadDataValidReg.toNat +
        (st (reset + n)).outputAxisTvalidReg.toNat)
  stable : ∀ n, reset ≤ n → (st n).outputAxisTvalidReg = true →
    (input n).outputAxisTready = false →
    (st (n + 1)).outputAxisTvalidReg = true ∧ (st (n + 1)).outputDataReg = (st n).outputDataReg

/-- After a reset of at least two cycles in which no word is offered up to its end and on. -/
theorem fifo_keeps_order (addrWidth : Nat) (α : Type) (reset : Nat) (input : Nat → Inputs α)
    (st : Nat → State addrWidth α) (hrun : Run reset input st) (hreset : 2 ≤ reset)
    (hwidth : 0 < addrWidth) (hoff : offersThrough reset input = false) :
    KeepsOrder reset input st := by
  constructor
  · intro n
    cases n with
    | zero =>
        have hcleared := (hrun.cleared hreset).1
        refine ⟨[], rfl, Nat.zero_le _, ?_⟩
        rw [Nat.add_zero, inputAxisTready, hcleared.full]
        have := Nat.two_pow_pos addrWidth
        exact ⟨fun _ => by rw [List.length_nil]; omega, fun _ => rfl⟩
    | succ n =>
        obtain ⟨q, hq, heq⟩ := hrun.exists_holds hreset hwidth n
        rw [hoff, if_neg Bool.false_ne_true] at heq
        exact ⟨q, heq, hq.length_le, hq.ready_iff⟩
  · intro n hn hvalid hready
    have hlow : (input n).rst = false := by rw [hrun.rst, decide_eq_false (by omega)]
    have hstore : storeOutput (st n) (input n) = false := by
      rw [storeOutput, hready, hvalid]
      rfl
    obtain ⟨hv, hd, -⟩ := next_stalled hlow hstore
    rw [hrun.edge n, hv, hd]
    exact ⟨hvalid, rfl⟩

/-- Two cycles of reset; the words offered from cycle `first` on are the numbers of their cycles,
and the consumer is always ready. -/
def counting (first n : Nat) : Inputs Nat where
  rst := decide (n < 2)
  inputAxisTvalid := decide (first ≤ n)
  memWriteData := n
  outputAxisTready := true

/-- A FIFO of two words with old contents in its memory. -/
def usedFifo : State 1 Nat where
  wrPtrReg := 3
  wrAddrReg := 3
  rdPtrReg := 2
  rdAddrReg := 2
  mem := fun _ => 99
  memReadDataReg := 98
  memReadDataValidReg := true
  outputDataReg := 97
  outputAxisTvalidReg := true

theorem counting_run (first : Nat) :
    Run 2 (counting first) (stateAt next usedFifo (counting first)) :=
  ⟨fun _ => rfl, fun _ => rfl⟩

theorem fifo_keeps_order_counting :
    KeepsOrder 2 (counting 2) (stateAt next usedFifo (counting 2)) ∧
      emitted (counting 2) (stateAt next usedFifo (counting 2)) 2 6 = [2, 3, 4] :=
  ⟨fifo_keeps_order 1 Nat 2 _ _ (counting_run 2) (by decide) (by decide) rfl, by decide⟩

/-- The first word after the reset is replaced by what the memory had before, exactly when words
are offered in the last cycle of the reset and in the next one.  All others come out in order. -/
theorem first_word_after_reset (addrWidth : Nat) (α : Type) (reset : Nat)
    (input : Nat → Inputs α) (st : Nat → State addrWidth α) (hrun : Run reset input st)
    (hreset : 2 ≤ reset) (hwidth : 0 < addrWidth) (n : Nat) :
    ∃ q, q.length ≤ 2 ^ addrWidth + 2 ∧
      (if offersThrough reset input then
          (accepted input st reset n).modifyHead fun _ => (st reset).mem 0
        else accepted input st reset n) = emitted input st reset n ++ q := by
  cases n with
  | zero => exact ⟨[], Nat.zero_le _, ite_self _⟩
  | succ n =>
      obtain ⟨q, hq, heq⟩ := hrun.exists_holds hreset hwidth n
      have hle := hq.length_le
      have hread := Bool.toNat_le (st (reset + (n + 1))).memReadDataValidReg
      have hout := Bool.toNat_le (st (reset + (n + 1))).outputAxisTvalidReg
      exact ⟨q, by omega, heq⟩

theorem first_word_after_reset_counting :
    (∃ q : List Nat, q.length ≤ 4 ∧
      (accepted (counting 1) (stateAt next usedFifo (counting 1)) 2 6).modifyHead (fun _ => 99) =
        emitted (counting 1) (stateAt next usedFifo (counting 1)) 2 6 ++ q) ∧
      emitted (counting 1) (stateAt next usedFifo (counting 1)) 2 6 = [99, 3, 4] :=
  ⟨first_word_after_reset 1 Nat 2 _ _ (counting_run 1) (by decide) (by decide) 6, by decide⟩

/-! ## How long a word stays -/

/-- The cycles until word `k` of the content leaves when the consumer is ready. -/
def delay (s : State addrWidth α) (k : Nat) : Nat :=
  if s.outputAxisTvalidReg then
    if s.memReadDataValidReg then k else if k = 0 then 0 else k + 1
  else if s.memReadDataValidReg then k + 1 else k + 2

theorem delay_le (s : State addrWidth α) (k : Nat) : delay s k ≤ k + 2 := by
  unfold delay
  split <;> split
  · omega
  · split <;> omega
  · omega
  · omega

theorem toNat_emits {s : State addrWidth α} {i : Inputs α} (hready : i.outputAxisTready = true) :
    (emits s i).toList.length = s.outputAxisTvalidReg.toNat := by
  rw [emits, hready, Bool.and_true]
  cases s.outputAxisTvalidReg <;> rfl

/-- An edge with a ready consumer moves each word that stays one cycle nearer to the output. -/
theorem Stored.delay_next {s : State addrWidth α} {i : Inputs α} {r n k : Nat}
    (h : Stored r n s) (hrst : i.rst = false) (hready : i.outputAxisTready = true)
    (hk : k < (content s r n).length) (hstay : s.outputAxisTvalidReg.toNat ≤ k) :
    delay (AxisFifo.next s i) (k - s.outputAxisTvalidReg.toNat) + 1 ≤ delay s k := by
  have hstore : storeOutput s i = true := by rw [storeOutput, hready, Bool.true_or]
  have hout : (AxisFifo.next s i).outputAxisTvalidReg = s.memReadDataValidReg := by
    show (if i.rst = true then false else outputAxisTvalidNext s i) = _
    rw [hrst, if_neg Bool.false_ne_true, outputAxisTvalidNext, if_pos hstore]
  have hread : (AxisFifo.next s i).memReadDataValidReg = !empty s := by
    show (if i.rst = true then false else memReadDataValidNext s i) = _
    rw [hrst, if_neg Bool.false_ne_true, memReadDataValidNext, hstore, Bool.true_or, if_pos rfl]
  have hread' : (AxisFifo.next s i).memReadDataValidReg = decide (0 < n) := by
    rw [hread]
    by_cases hn : n = 0
    · rw [h.empty_iff.mpr hn, hn]
      rfl
    · have hne : empty s = false := by
        rw [← Bool.not_eq_true, h.empty_iff]
        exact hn
      rw [hne, decide_eq_true (Nat.pos_of_ne_zero hn)]
      rfl
  rw [length_content] at hk
  unfold delay
  rw [hout, hread']
  cases ho : s.outputAxisTvalidReg with
  | false =>
      rw [ho, Bool.toNat_false, Nat.zero_add] at hk
      rw [Bool.toNat_false, Nat.sub_zero, if_neg Bool.false_ne_true]
      cases hv : s.memReadDataValidReg with
      | false =>
          -- the word is in the memory, which fills the read register
          rw [hv, Bool.toNat_false, Nat.zero_add] at hk
          refine Nat.le_of_eq ?_
          rw [if_neg Bool.false_ne_true, decide_eq_true (Nat.zero_lt_of_lt hk), if_pos rfl,
            if_neg Bool.false_ne_true]
      | true =>
          rw [hv, Bool.toNat_true] at hk
          rw [if_pos rfl, if_pos rfl]
          by_cases hn : 0 < n
          · refine Nat.le_of_eq ?_
            rw [decide_eq_true hn, if_pos rfl]
          · rw [decide_eq_false hn, if_neg Bool.false_ne_true, if_pos (by omega)]
            omega
  | true =>
      rw [ho, Bool.toNat_true] at hk hstay
      rw [Bool.toNat_true, if_pos rfl]
      cases hv : s.memReadDataValidReg with
      | false =>
          rw [hv, Bool.toNat_false, Nat.zero_add] at hk
          rw [if_neg Bool.false_ne_true, if_neg Bool.false_ne_true, decide_eq_true (by omega),
            if_pos rfl, if_neg (by omega)]
          omega
      | true =>
          rw [hv, Bool.toNat_true] at hk
          rw [if_pos rfl, if_pos rfl]
          by_cases hn : 0 < n
          · rw [decide_eq_true hn, if_pos rfl]
            omega
          · rw [decide_eq_false hn, if_neg Bool.false_ne_true, if_pos (by omega)]
            omega

/-- Within its delay a word leaves, if the consumer is ready all the time. -/
theorem Run.leaves (hrun : Run reset input st) {a k m : Nat} (ha : reset ≤ a) {q : List α}
    (hq : Holds q (st a)) (hk : k < q.length) (hm : delay (st a) k < m)
    (hready : ∀ j, j < m → (input (a + j)).outputAxisTready = true) :
    k + 1 ≤ (emitted input st a m).length := by
  induction m generalizing a k q with
  | zero => exact absurd hm (Nat.not_lt_zero _)
  | succ m ih =>
      have hlow : (input a).rst = false := by rw [hrun.rst, decide_eq_false (by omega)]
      have hnow := hready 0 (Nat.succ_pos m)
      have hout := @toNat_emits _ _ (st a) (input a) hnow
      rw [emitted_succ, List.length_append, hout]
      rcases Nat.lt_or_ge k (st a).outputAxisTvalidReg.toNat with hlt | hstay
      · omega
      · obtain ⟨r, n, hst, rfl⟩ := hq
        have hdelay := hst.delay_next hlow hnow hk hstay
        have hlen := congrArg List.length (hst.content_next hlow)
        rw [List.length_append, List.length_append, hout] at hlen
        rw [← hrun.edge a] at hdelay hlen
        have hnext := hst.next hlow
        rw [← hrun.edge a] at hnext
        have hready' : ∀ j, j < m → (input (a + 1 + j)).outputAxisTready = true := by
          intro j hj
          rw [Nat.add_assoc, Nat.add_comm 1 j]
          exact hready (j + 1) (Nat.succ_lt_succ hj)
        have hk' : k - (st a).outputAxisTvalidReg.toNat <
            (content (st (a + 1)) (r + (read (st a) (input a)).toNat)
              (n - (read (st a) (input a)).toNat + (write (st a) (input a)).toNat)).length := by
          omega
        have hleft := ih (show reset ≤ a + 1 by omega) ⟨_, _, hnext, rfl⟩ hk' (by omega) hready'
        omega

/-- With a consumer that is ready for three cycles more than there are words ahead of it, an
accepted word has left. -/
theorem fifo_latency (addrWidth : Nat) (α : Type) (reset : Nat) (input : Nat → Inputs α)
    (st : Nat → State addrWidth α) (hrun : Run reset input st) (hreset : 2 ≤ reset)
    (hwidth : 0 < addrWidth) (n k : Nat)
    (hk : (emitted input st reset n).length + k < (accepted input st reset n).length)
    (hready : ∀ j, j < k + 3 → (input (reset + n + j)).outputAxisTready = true) :
    (emitted input st reset n).length + k + 1 ≤ (emitted input st reset (n + (k + 3))).length := by
  cases n with
  | zero => exact absurd hk (Nat.not_lt_zero _)
  | succ n =>
      obtain ⟨q, hq, heq⟩ := hrun.exists_holds hreset hwidth n
      have hlen := congrArg List.length heq
      have haccepted : (if offersThrough reset input then
          (accepted input st reset (n + 1)).modifyHead fun _ => (st reset).mem 0
          else accepted input st reset (n + 1)).length =
            (accepted input st reset (n + 1)).length := by
        split
        · exact List.length_modifyHead ..
        · rfl
      rw [haccepted, List.length_append] at hlen
      have hdelay : delay (st (reset + (n + 1))) k < k + 3 :=
        Nat.lt_succ_of_le (delay_le _ k)
      have hleft := hrun.leaves (by omega) hq (show k < q.length by omega) hdelay hready
      rw [emitted_split reset (n + 1) (k + 3), List.length_append]
      omega

theorem fifo_latency_counting :
    4 ≤ (emitted (counting 2) (stateAt next usedFifo (counting 2)) 2 9).length :=
  fifo_latency 1 Nat 2 _ _ (counting_run 2) (by decide) (by decide) 5 1 (by decide)
    (fun _ _ => rfl)

end AxisFifo
end Hdl
end WzXdma
