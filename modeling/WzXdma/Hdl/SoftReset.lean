import WzXdma.Consts
import WzXdma.Hdl.Producer

/-!
# The software reset of the data source

The software writes 0, 0xF0, 0 and 0x0F to the control register.  Bit 0 of it is
`dma_ena`, bit 4 is `dma_rst`.  The first is looked at by the state machine of the
producer in its idle state only, the second resets the FIFO behind it and nothing else,
so a packet that is under way goes on after the reset where it was.

The FIFO is an IP core.  `FifoOk` says what is assumed of it.
-/

namespace WzXdma
namespace Hdl
namespace Producer

open Lib.Clocked Lib.Periodic

def dmaEna (controlReg : Word) : Bool := controlReg.getLsbD 0

def dmaRst (controlReg : Word) : Bool := controlReg.getLsbD 4

/-- The producer gets `dma_ena` from the control register. -/
def Wired (control : Nat → Word) (input : Nat → Inputs) : Prop :=
  ∀ n, (input n).dmaEna = dmaEna (control n)

/-- The software's writes are seen in the cycles `n₀`, `n₁`, `n₂` and `n₃`. -/
structure SoftReset (control : Nat → Word) (n₀ n₁ n₂ n₃ : Nat) : Prop where
  stopped : n₀ < n₁ ∧ ∀ n, n₀ ≤ n → n < n₁ → control n = 0
  reset : n₁ < n₂ ∧ ∀ n, n₁ ≤ n → n < n₂ → control n = 0xF0
  released : n₂ < n₃ ∧ ∀ n, n₂ ≤ n → n < n₃ → control n = 0
  started : ∀ n, n₃ ≤ n → control n = 0x0F

/-- The FIFO takes no beat while in reset, and what leaves it from a reset cycle on are
the beats accepted from then on, in order. -/
structure FifoOk (control : Nat → Word) (input : Nat → Inputs) (st : Nat → State)
    (left : Nat → List Beat) : Prop where
  notReady : ∀ n, dmaRst (control n) = true → (input n).c2hDataTready = false
  inOrder : ∀ n k, dmaRst (control n) = true →
    during left n k <+: during (fun m => (beat (st m) (input m)).toList) n k

/-- Some words of a packet are transferred and some are not. -/
def UnderWay (s : State) : Prop :=
  s.state ≠ .idle ∧ s.wordCount ≠ 0

section Runs

variable {control : Nat → Word} {input : Nat → Inputs} {st : Nat → State}

theorem underWay_iff (h : Run input st) (n : Nat) :
    UnderWay (st n) ↔ (beats input st n).length % packetLen ≠ 0 := by
  obtain ⟨hc, -⟩ := counted h n
  have hword : ∀ c : Nat, (st n).wordCount.toNat = c % packetLen →
      ((st n).wordCount ≠ 0 ↔ c % packetLen ≠ 0) := by
    intro c hw
    rw [← hw]
    exact not_congr ⟨fun h0 => by rw [h0]; rfl, fun h0 => BitVec.eq_of_toNat_eq h0⟩
  unfold UnderWay
  cases hs : (st n).state with
  | idle =>
      rw [Counted, hs] at hc
      have h0 : (beats input st n).length % packetLen = 0 := hc
      simp [h0]
  | header =>
      rw [Counted, hs] at hc
      exact hc.elim
  | waitSample =>
      rw [Counted, hs] at hc
      simpa using hword _ hc.1
  | data =>
      rw [Counted, hs] at hc
      simpa using hword _ hc.1
  | last =>
      rw [Counted, hs] at hc
      exact hc.elim

/-- The beats accepted from a cycle on continue the packet where it was. -/
theorem accepted_from (h : Run input st) (n k : Nat) :
    ∃ c, during (fun m => (beat (st m) (input m)).toList) n k =
      periodic packetLen packetBeat (beats input st n).length c := by
  have hn := (counted h n).2
  have hk := (counted h (n + k)).2
  have hadd : beats input st (n + k) = beats input st n ++
      during (fun m => (beat (st m) (input m)).toList) n k := events_add _ n k
  refine ⟨(during (fun m => (beat (st m) (input m)).toList) n k).length, ?_⟩
  have hlen : (beats input st (n + k)).length = (beats input st n).length +
      (during (fun m => (beat (st m) (input m)).toList) n k).length := by
    rw [hadd, List.length_append]
  rw [hlen, periodic_add, Nat.zero_add, ← hn] at hk
  exact List.append_cancel_left (hadd.symm.trans hk)

/-- Without `dma_ena` an idle producer stays idle. -/
theorem idle_kept (h : Run input st) (hwired : Wired control input) {n₀ n₁ : Nat} (hle : n₀ ≤ n₁)
    (hstop : ∀ n, n₀ ≤ n → n < n₁ → control n = 0) (hidle : (st n₀).state = .idle) :
    (st n₁).state = .idle := by
  induction n₁, hle using Nat.le_induction with
  | base => exact hidle
  | succ n hle ih =>
      have hs := ih fun m hm hm' => hstop m hm (by omega)
      have hena : (input n).dmaEna = false := by
        rw [hwired n, hstop n hle (Nat.lt_succ_self n)]
        rfl
      rw [h.edge, next, if_neg (by rw [h.noReset n]; decide)]
      simp only [hs, hena, Bool.false_and, Bool.false_eq_true, if_false]

end Runs

theorem packetBeat_ne {k : Nat} (h0 : k ≠ 0) (hk : k < packetLen) : packetBeat k ≠ packetBeat 0 := by
  intro heq
  have hdata := congrArg (fun b : Beat => b.tdata.setWidth 28) heq
  simp only [packetBeat, BitVec.setWidth_append_eq_right] at hdata
  have hnat := congrArg BitVec.toNat hdata
  rw [packetLen_eq] at hk
  rw [BitVec.toNat_ofNat, BitVec.toNat_ofNat, Nat.zero_mod, Nat.mod_eq_of_lt (by omega)] at hnat
  exact h0 hnat

/-- The stream after a software reset is clean exactly if no packet was under way when
the FIFO was reset, or nothing has left the FIFO yet.  A producer that was idle when it was
stopped is such a case. -/
theorem soft_reset_clean_iff (control : Nat → Word) (input : Nat → Inputs) (st : Nat → State)
    (h : Run input st) (hwired : Wired control input) (left : Nat → List Beat)
    (hfifo : FifoOk control input st left) (n₀ n₁ n₂ n₃ : Nat)
    (hseq : SoftReset control n₀ n₁ n₂ n₃) :
    (∀ k, Packets (during left n₁ k) ↔ during left n₁ k = [] ∨ ¬UnderWay (st n₁)) ∧
      ((st n₀).state = .idle → ∀ k, Packets (during left n₁ k)) := by
  have hrst : dmaRst (control n₁) = true := by
    rw [hseq.reset.2 n₁ (Nat.le_refl n₁) hseq.reset.1]
    rfl
  have hlen : 0 < packetLen := by rw [packetLen_eq]; omega
  have hleft : ∀ k, ∃ c, during left n₁ k =
      periodic packetLen packetBeat ((beats input st n₁).length % packetLen) c := by
    intro k
    obtain ⟨c, hc⟩ := accepted_from h n₁ k
    have hpre := hfifo.inOrder n₁ k hrst
    rw [hc] at hpre
    refine ⟨(during left n₁ k).length, ?_⟩
    have hle : (during left n₁ k).length ≤ c := by simpa using hpre.length_le
    rw [periodic_start_mod, ← periodic_take packetLen packetBeat _ hle]
    exact List.prefix_iff_eq_take.mp hpre
  have hclean : ¬UnderWay (st n₁) → ∀ k, Packets (during left n₁ k) := by
    intro hnot k
    rw [underWay_iff h n₁, not_not] at hnot
    obtain ⟨c, hc⟩ := hleft k
    rw [hc, hnot]
    exact periods_periodic hlen packetBeat c
  refine ⟨fun k => ⟨fun hp => ?_, ?_⟩, fun hidle => hclean ?_⟩
  · obtain ⟨c, hc⟩ := hleft k
    cases c with
    | zero => exact .inl hc
    | succ c =>
        -- the first word out is the one the packet was at
        right
        intro hunder
        rw [underWay_iff h n₁] at hunder
        rw [hc, Nat.add_comm, periodic_add] at hp
        have hhead : packetBeat (((beats input st n₁).length % packetLen + 0) % packetLen) =
            packetBeat 0 := Periods.head hp
        rw [Nat.add_zero, Nat.mod_mod] at hhead
        exact packetBeat_ne hunder (Nat.mod_lt _ hlen) hhead
  · rintro (hnil | hnot)
    · rw [hnil]
      exact ⟨0, 0, rfl⟩
    · exact hclean hnot k
  · rintro ⟨hne, -⟩
    exact hne (idle_kept h hwired (Nat.le_of_lt hseq.stopped.1) hseq.stopped.2 hidle)

/-! ## A reset in the middle of a packet -/

/-- The control register: the source runs for `run` cycles, and each write of the reset
lasts one cycle. -/
def controlAt (run n : Nat) : Word :=
  if n < run then 0x0F
  else if n = run + 1 then 0xF0
  else if n < run + 3 then 0
  else 0x0F

def inputsAt (run n : Nat) : Inputs where
  userRstn := true
  newSample := true
  dmaEna := dmaEna (controlAt run n)
  fifoProgEmpty := true
  c2hDataTready := !dmaRst (controlAt run n)

def statesAt (run : Nat) : Nat → State :=
  stateAt next (next ⟨.idle, 0, 0⟩ ⟨false, false, false, false, false⟩) (inputsAt run)

/-- From the reset on, every beat leaves in the cycle after it was accepted. -/
def leftAt (run : Nat) : Nat → List Beat
  | 0 => []
  | n + 1 => if run < n then (beat (statesAt run n) (inputsAt run n)).toList else []

theorem statesAt_run (run : Nat) : Run (inputsAt run) (statesAt run) :=
  ⟨⟨⟨.idle, 0, 0⟩, ⟨false, false, false, false, false⟩, rfl, rfl⟩, fun _ => rfl, fun _ => rfl⟩

theorem controlAt_softReset (run : Nat) :
    SoftReset (controlAt run) run (run + 1) (run + 2) (run + 3) := by
  refine ⟨⟨by omega, fun n h h' => ?_⟩, ⟨by omega, fun n h h' => ?_⟩, ⟨by omega, fun n h h' => ?_⟩,
    fun n h => ?_⟩
  · obtain rfl : n = run := by omega
    simp [controlAt]
  · obtain rfl : n = run + 1 := by omega
    simp [controlAt]
  · obtain rfl : n = run + 2 := by omega
    simp [controlAt]
  · simp only [controlAt]
    rw [if_neg (by omega), if_neg (by omega), if_neg (by omega)]

theorem dmaRst_controlAt {run n : Nat} (h : dmaRst (controlAt run n) = true) : n = run + 1 := by
  by_contra hne
  have hlow : controlAt run n = 0x0F ∨ controlAt run n = 0 := by
    simp only [controlAt, if_neg hne]
    split
    · exact .inl rfl
    · split
      · exact .inr rfl
      · exact .inl rfl
  rcases hlow with hc | hc <;> rw [hc] at h <;> cases h

theorem leftAt_fifoOk (run : Nat) :
    FifoOk (controlAt run) (inputsAt run) (statesAt run) (leftAt run) := by
  refine ⟨fun n hn => ?_, fun n k hn => ?_⟩
  · show (!dmaRst (controlAt run n)) = false
    rw [hn]
    rfl
  · obtain rfl := dmaRst_controlAt hn
    -- the FIFO is one cycle behind
    have hlag : ∀ k, during (leftAt run) (run + 1) (k + 1) =
        during (fun m => (beat (statesAt run m) (inputsAt run m)).toList) (run + 1) k := by
      intro k
      induction k with
      | zero => simp [during, leftAt]
      | succ k ih =>
          rw [during, ih, during]
          show _ ++ leftAt run (run + 1 + k + 1) = _
          rw [leftAt, if_pos (by omega)]
    cases k with
    | zero => exact List.prefix_refl _
    | succ k =>
        rw [hlag, during]
        exact List.prefix_append _ _

/-- A producer stopped before it has left its idle state gives a clean stream. -/
theorem soft_reset_clean_idle :
    ∃ (control : Nat → Word) (input : Nat → Inputs) (st : Nat → State) (left : Nat → List Beat),
      Run input st ∧ FifoOk control input st left ∧ SoftReset control 0 1 2 3 ∧
      (st 0).state = .idle ∧ during left 1 6 = [packetBeat 0] ∧
      ∀ k, Packets (during left 1 k) :=
  ⟨controlAt 0, inputsAt 0, statesAt 0, leftAt 0, statesAt_run 0, leftAt_fifoOk 0,
    controlAt_softReset 0, rfl, by decide +kernel,
    (soft_reset_clean_iff (controlAt 0) (inputsAt 0) (statesAt 0) (statesAt_run 0) (fun _ => rfl)
      (leftAt 0) (leftAt_fifoOk 0) 0 1 2 3 (controlAt_softReset 0)).2 rfl⟩

/-- Stopped after three words, the producer goes on with word 3 after the reset. -/
theorem soft_reset_mid_packet :
    ∃ (control : Nat → Word) (input : Nat → Inputs) (st : Nat → State) (left : Nat → List Beat),
      Run input st ∧ Wired control input ∧ FifoOk control input st left ∧
      SoftReset control 4 5 6 7 ∧ during left 5 3 = [packetBeat 3] ∧
      ¬Packets (during left 5 3) := by
  have hleft : during (leftAt 4) 5 3 = [packetBeat 3] := by decide +kernel
  refine ⟨controlAt 4, inputsAt 4, statesAt 4, leftAt 4, statesAt_run 4, fun _ => rfl,
    leftAt_fifoOk 4, controlAt_softReset 4, hleft, fun hp => ?_⟩
  rw [hleft] at hp
  exact packetBeat_ne (by decide) (by rw [packetLen_eq]; omega) (Periods.head hp)

end Producer
end Hdl
end WzXdma
