import WzXdma.Pointers

/-!
# The end of the interrupt scan

The `while(true)` loop of `wz_engine_service_cyclic_interrupt` walks the ring until it meets a
descriptor without a writeback or a block that does not fit into the FIFO.  It does not remember
where it began.

A descriptor at which the loop has something to do other than to go on is met once in every lap,
and either it ends the loop or it takes one of the free places of the FIFO.  When there is no such
descriptor, which is the case inside a packet that fills the whole ring, nothing changes from lap
to lap and the loop goes round for ever.
-/

namespace WzXdma
namespace Driver

open Lib

/-- At this descriptor the scan does not just go on to the next one. -/
def Halts (x : XdmaDesc) : Prop := ¬x.toResult.HasWb ∨ x.toResult.eop = true

instance (x : XdmaDesc) : Decidable (Halts x) := inferInstanceAs (Decidable (_ ∨ _))

/-- The descriptors that the ring holds. -/
def RingHolds (c : WzConsts) (d : Driver) (ring : Nat → XdmaDesc) : Prop :=
  ∀ i, i < c.nofbufs → d.ringDesc i = some (ring i)

variable {c : WzConsts} {d : Driver} {ring : Nat → XdmaDesc} {fuel check k : Nat}

theorem derefDesc_of_ringDesc {i : Nat} {x : XdmaDesc} (h : d.ringDesc i = some x) :
    d.kern.derefDesc (d.ext.desc i) 0 = .ok x := by
  unfold ringDesc at h
  exact toOption_eq_some.mp h

theorem RingHolds.cursors (h : RingHolds c d ring) (b : BlockScan) :
    RingHolds c { d with ext := { d.ext with toBlockScan := b } } ring := h

/-- How an iteration can go: the loop ends, a block goes into the FIFO, or nothing happens. -/
theorem scanLoop_moves (c : WzConsts) (fuel : Nat) {x : XdmaDesc} (hx : d.ringDesc check = some x)
    (hsize : 0 < d.ext.kfifoSize) :
    (Halts x ∧ ∃ d', scanLoop c (fuel + 1) check d = .ok d') ∨
    (Halts x ∧ d.ext.kfifo.length < d.ext.kfifoSize ∧ ∃ b : BlockScan,
      b.kfifo.length = d.ext.kfifo.length + 1 ∧
      scanLoop c (fuel + 1) check d = scanLoop c fuel (nextDesc c.nofbufs check)
        { d with ext := { d.ext with toBlockScan := b } }) ∨
    (¬Halts x ∧ scanLoop c (fuel + 1) check d = scanLoop c fuel (nextDesc c.nofbufs check) d) := by
  have hderef := derefDesc_of_ringDesc hx
  have hfifo : d.ext.kfifoSize ≠ 0 := Nat.ne_of_gt hsize
  by_cases hwb : x.toResult.HasWb
  · cases heop : x.toResult.eop with
    | true =>
        by_cases hroom : d.ext.kfifo.length < d.ext.kfifoSize
        · let next := nextDesc c.nofbufs check
          let db : WzXdmaDataBlockDesc :=
            ⟨BitVec.ofNat 32 d.ext.blockFirstDesc, BitVec.ofNat 32 check, x.toResult.length⟩
          refine .inr (.inl ⟨.inr heop, hroom, ⟨next, next, d.ext.kfifo ++ [db]⟩, by simp, ?_⟩)
          simp [scanLoop, hderef, scanMove, hwb, heop, hroom, BlockScan.apply, next, db]
        · exact .inl ⟨.inr heop, d, by
            simp [scanLoop, hderef, scanMove, hwb, heop, hroom, hfifo, BlockScan.apply]⟩
    | false =>
        refine .inr (.inr ⟨?_, by simp [scanLoop, hderef, scanMove, hwb, heop, BlockScan.apply]⟩)
        rintro (hno | heop')
        · exact hno hwb
        · rw [heop] at heop'
          cases heop'
  · refine .inl ⟨.inl hwb, { d with ext := { d.ext with blockScannedDesc := check } }, ?_⟩
    simp [scanLoop, hderef, scanMove, hwb, BlockScan.apply]

/-- With a descriptor at which it halts, the scan needs at most one lap for each free place of the
FIFO and one more. -/
theorem scanLoop_ends (hN : c.nofbufs = 2 ^ k) {j : Nat} (hj : j < c.nofbufs) (hhalt : Halts (ring j))
    (hring : RingHolds c d ring) (hsize : 0 < d.ext.kfifoSize) (hcheck : check < c.nofbufs)
    (hfuel : (d.ext.kfifoSize - d.ext.kfifo.length) * c.nofbufs +
      Cyclic.dist c.nofbufs check j < fuel) :
    ∃ d', scanLoop c fuel check d = .ok d' := by
  -- the measure: free places of the FIFO first, then the way to `j`
  induction fuel generalizing check d with
  | zero => omega
  | succ fuel ih =>
      have hnext := nextDesc_lt (show 0 < c.nofbufs by omega) check
      obtain ⟨-, hend⟩ | ⟨-, hroom, b, hb, hstep⟩ | ⟨hgo, hstep⟩ :=
        scanLoop_moves c fuel (hring check hcheck) hsize
      · exact hend
      · rw [hstep]
        refine ih (hring.cursors b) hsize hnext ?_
        show (d.ext.kfifoSize - b.kfifo.length) * c.nofbufs + _ < fuel
        have hdist := Cyclic.dist_lt hnext hj
        have hfree : d.ext.kfifoSize - d.ext.kfifo.length = d.ext.kfifoSize - b.kfifo.length + 1 := by
          omega
        rw [hfree, Nat.add_mul, Nat.one_mul] at hfuel
        omega
      · rw [hstep]
        have hne : check ≠ j := fun h => hgo (h ▸ hhalt)
        have hdist := Cyclic.dist_next hcheck hj hne
        refine ih hring hsize hnext ?_
        rw [nextDesc, Cyclic.succ_and_mask hN]
        omega

/-- Without such a descriptor the scan never ends. -/
theorem scanLoop_spins (hring : RingHolds c d ring)
    (hgo : ∀ i, i < c.nofbufs → ¬Halts (ring i)) (hsize : 0 < d.ext.kfifoSize)
    (hcheck : check < c.nofbufs) (fuel : Nat) : scanLoop c fuel check d = .error .spin := by
  induction fuel generalizing check with
  | zero => rfl
  | succ fuel ih =>
      have hnext := nextDesc_lt (show 0 < c.nofbufs by omega) check
      obtain ⟨hhalt, -⟩ | ⟨hhalt, -⟩ | ⟨-, hstep⟩ :=
        scanLoop_moves c fuel (hring check hcheck) hsize
      · exact absurd hhalt (hgo check hcheck)
      · exact absurd hhalt (hgo check hcheck)
      · rw [hstep]
        exact ih hnext

end Driver

/-- The scan ends exactly if some descriptor of the ring carries no writeback or ends a packet. -/
theorem scan_terminates_iff (c : WzConsts) (k : Nat) (hN : c.nofbufs = 2 ^ k) (d : Driver)
    (ring : Nat → XdmaDesc) (hring : d.RingHolds c ring) (hsize : 0 < d.ext.kfifoSize)
    (hscanned : d.ext.blockScannedDesc < c.nofbufs) :
    (∃ fuel d', Driver.scanLoop c fuel d.ext.blockScannedDesc d = .ok d') ↔
      ∃ i, i < c.nofbufs ∧ ((ring i).toResult.HasWb → (ring i).toResult.eop = true) := by
  constructor
  · rintro ⟨fuel, d', hd'⟩
    by_contra hnone
    have hgo : ∀ i, i < c.nofbufs → ¬Driver.Halts (ring i) := by
      intro i hi hhalt
      refine hnone ⟨i, hi, fun hwb => ?_⟩
      exact hhalt.resolve_left (not_not_intro hwb)
    rw [Driver.scanLoop_spins hring hgo hsize hscanned fuel] at hd'
    cases hd'
  · rintro ⟨j, hj, hhalt⟩
    have hhalts : Driver.Halts (ring j) := by
      by_cases hwb : (ring j).toResult.HasWb
      · exact .inr (hhalt hwb)
      · exact .inl hwb
    exact ⟨_, Driver.scanLoop_ends hN hj hhalts hring hsize hscanned (Nat.lt_succ_self _)⟩

namespace Driver

/-- A test of every descriptor of the ring. -/
def ringAll (c : WzConsts) (d : Driver) (p : XdmaDesc → Bool) : Bool :=
  (List.range c.nofbufs).all fun i => (d.ringDesc i).any p

/-- What the ring holds, for a ring that passes a test. -/
theorem ringHolds_getD {c : WzConsts} {d : Driver} {p : XdmaDesc → Bool} (h : d.ringAll c p = true) :
    d.RingHolds c (fun i => (d.ringDesc i).getD .zero) ∧
      ∀ i, i < c.nofbufs → p ((d.ringDesc i).getD .zero) = true := by
  have hsome : ∀ i, i < c.nofbufs → ∃ x, d.ringDesc i = some x ∧ p x = true := fun i hi =>
    (Option.any_eq_true _ _).mp (List.all_eq_true.mp h i (List.mem_range.mpr hi))
  refine ⟨fun i hi => ?_, fun i hi => ?_⟩
  · obtain ⟨x, hx, -⟩ := hsome i hi
    show d.ringDesc i = some ((d.ringDesc i).getD .zero)
    rw [hx, Option.getD_some]
  · obtain ⟨x, hx, hp⟩ := hsome i hi
    rw [hx, Option.getD_some]
    exact hp

end Driver

/-- Both descriptors are written back, and both end a packet. -/
theorem scan_terminates_full_ring :
    ∃ s : Sys, s.Reachable twoBuffers.toWzConsts ∧
      s.drv.ringAll twoBuffers.toWzConsts (fun x => x.toResult.HasWb && x.toResult.eop) = true ∧
      ∃ fuel d', Driver.scanLoop twoBuffers.toWzConsts fuel s.drv.ext.blockScannedDesc s.drv = .ok d' := by
  obtain ⟨s, hs, hp⟩ := Lib.Machine.exists_reach_of_execOk (Sys.step twoBuffers.toWzConsts)
    (fun _ _ => True) .created
    [.allocBuffers allocGranted, .start startGranted, .writeback 3 0 true 9, .writeback 4 0 true 7]
    (fun s => decide (0 < s.drv.ext.kfifoSize ∧ s.drv.ext.blockScannedDesc < 2) &&
      s.drv.ringAll twoBuffers.toWzConsts (fun x => x.toResult.HasWb && x.toResult.eop))
    (by decide +kernel)
  rw [Bool.and_eq_true] at hp
  obtain ⟨hsize, hscanned⟩ := of_decide_eq_true hp.1
  obtain ⟨hring, hwritten⟩ := Driver.ringHolds_getD hp.2
  refine ⟨s, hs, hp.2, ?_⟩
  refine (scan_terminates_iff twoBuffers.toWzConsts 1 rfl s.drv _ hring hsize hscanned).mpr
    ⟨1, by decide, fun _ => ?_⟩
  have h1 := hwritten 1 (by decide)
  rw [Bool.and_eq_true] at h1
  exact h1.2

/-- A packet that is longer than the ring: all descriptors are written back, none ends a packet. -/
theorem scan_spins_in_long_packet :
    ∃ s : Sys, s.Reachable wzConsts.toWzConsts ∧ s.drv.ext.blockScannedDesc < 128 ∧
      s.drv.ext.blockFirstDesc < 128 ∧ s.drv.ext.kfifo = [] ∧
      ∀ fuel, Driver.scanLoop wzConsts.toWzConsts fuel s.drv.ext.blockScannedDesc s.drv =
        .error .spin := by
  obtain ⟨s, hs, hp⟩ := Lib.Machine.exists_reach_of_execOk (Sys.step wzConsts.toWzConsts)
    (fun _ _ => True) .created
    ([.allocBuffers allocGranted, .start startGranted] ++
      (List.range 128).map fun i => .writeback (129 + i) 0 false 0x400000)
    (fun s => decide (0 < s.drv.ext.kfifoSize ∧ s.drv.ext.blockScannedDesc < 128 ∧
      s.drv.ext.blockFirstDesc < 128 ∧ s.drv.ext.kfifo = []) &&
      s.drv.ringAll wzConsts.toWzConsts (fun x => ¬Driver.Halts x))
    (by decide +kernel)
  rw [Bool.and_eq_true] at hp
  obtain ⟨hsize, hscanned, hfirst, hkfifo⟩ := of_decide_eq_true hp.1
  obtain ⟨hring, hgo⟩ := Driver.ringHolds_getD hp.2
  refine ⟨s, hs, hscanned, hfirst, hkfifo, fun fuel => ?_⟩
  exact Driver.scanLoop_spins hring (fun i hi => of_decide_eq_true (hgo i hi)) hsize
    hscanned fuel

end WzXdma
