import WzXdma.Placement
import WzXdma.Queue

/-!
# Blocks left behind when the engine stops

`ioctl_do_wz_getbuf` returns `-EIO` whenever it finds the engine stopped, whatever is in
the FIFO.  So a block can still be obtained exactly as long as no service run leaves the
engine stopped with a block in the FIFO, be it one that was there before or one that the
same run has put there.
-/

namespace WzXdma

open Lib Lib.Loop

namespace Driver

variable {c : WzConsts} {d d' : Driver}

/-- A stopped engine has no block left to hand out. -/
def Drained (d : Driver) : Prop :=
  d.engine.running = false → d.ext.kfifo = []

/-- Descriptor `i` holds a writeback. -/
def completedAt (d : Driver) (i : Nat) : Bool :=
  (d.ringDesc i).any fun x => decide x.toResult.HasWb

/-- Descriptor `i` holds the writeback of the end of a packet. -/
def eopAt (d : Driver) (i : Nat) : Bool :=
  (d.ringDesc i).any fun x => decide x.toResult.HasWb && x.toResult.eop

/-- Among the completed descriptors that follow the scan cursor none ends a packet. -/
def NoBlockReady (c : WzConsts) (d : Driver) : Prop :=
  ∀ n, n < c.nofbufs →
    (∀ k, k ≤ n → d.completedAt ((d.ext.blockScannedDesc + k) % c.nofbufs) = true) →
    d.eopAt ((d.ext.blockScannedDesc + n) % c.nofbufs) = false

instance (c : WzConsts) (d : Driver) : Decidable (NoBlockReady c d) :=
  inferInstanceAs (Decidable (∀ n, n < c.nofbufs → _))

/-! ## What a scan puts into the FIFO -/

/-- `NoBlockReady` from descriptor `i` on, without the bound. -/
def NoEopFrom (c : WzConsts) (d : Driver) (i : Nat) : Prop :=
  ∀ n, (∀ k, k ≤ n → d.completedAt ((i + k) % c.nofbufs) = true) →
    d.eopAt ((i + n) % c.nofbufs) = false

/-- Past one round the same descriptors come again. -/
theorem noBlockReady_iff {c : RingConsts} :
    NoBlockReady c.toWzConsts d ↔ NoEopFrom c.toWzConsts d d.ext.blockScannedDesc := by
  constructor
  · intro h n hn
    have hlt : n % c.nofbufs < c.nofbufs := Nat.mod_lt _ c.nofbufs_pos
    have hle : n % c.nofbufs ≤ n := Nat.mod_le _ _
    rw [← Nat.add_mod_mod]
    exact h (n % c.nofbufs) hlt fun k hk => hn k (Nat.le_trans hk hle)
  · intro h n _ hn
    exact h n hn

/-- A scan only adds to the FIFO. -/
theorem scanLoop_kfifo_prefix {fuel check : Nat} (h : scanLoop c fuel check d = .ok d') :
    d.ext.kfifo <+: d'.ext.kfifo := by
  induction fuel generalizing check d with
  | zero => simp [scanLoop] at h
  | succ fuel ih =>
      unfold scanLoop at h
      split at h
      · cases h
      · rename_i x hx
        dsimp only at h
        generalize hmove : scanMove d.ext.kfifoSize x.toResult check d.ext.toBlockScan = move at h
        split at h
        · cases h
        · cases move with
          | finished => exact Except.ok.inj h ▸ List.prefix_refl _
          | postponed => exact Except.ok.inj h ▸ List.prefix_refl _
          | passed => exact ih h
          | reported db => exact (List.prefix_append _ _).trans (ih h)

/-- The next descriptor decides when the first one only continues a packet. -/
theorem noEopFrom_next {c : RingConsts} {i : Nat} (hi : i < c.nofbufs)
    (hdone : d.completedAt i = true) (heop : d.eopAt i = false) :
    NoEopFrom c.toWzConsts d i ↔ NoEopFrom c.toWzConsts d (nextDesc c.nofbufs i) := by
  have hshift : ∀ n, (nextDesc c.nofbufs i + n) % c.nofbufs = (i + (n + 1)) % c.nofbufs := by
    intro n
    rw [nextDesc_eq, Nat.mod_add_mod]
    congr 1
    omega
  constructor
  · intro h n hn
    rw [hshift]
    refine h (n + 1) fun k hk => ?_
    cases k with
    | zero => rwa [Nat.add_zero, Nat.mod_eq_of_lt hi]
    | succ k =>
        rw [← hshift]
        exact hn k (by omega)
  · intro h n hn
    cases n with
    | zero => rwa [Nat.add_zero, Nat.mod_eq_of_lt hi]
    | succ n =>
        rw [← hshift]
        refine h n fun k hk => ?_
        rw [hshift]
        exact hn (k + 1) (by omega)

/-- A scan that ends leaves an empty FIFO empty exactly if no block is ready. -/
theorem scanLoop_empty_iff {c : RingConsts} {fuel check : Nat}
    (h : scanLoop c.toWzConsts fuel check d = .ok d') (hcheck : check < c.nofbufs)
    (hempty : d.ext.kfifo = []) :
    d'.ext.kfifo = [] ↔ NoEopFrom c.toWzConsts d check := by
  induction fuel generalizing check d with
  | zero => simp [scanLoop] at h
  | succ fuel ih =>
      have hnext := nextDesc_lt c.nofbufs_pos check
      unfold scanLoop at h
      split at h
      · cases h
      rename_i x hx
      have hring : d.ringDesc check = some x := by
        rw [ringDesc, hx]
        rfl
      by_cases hwb : x.toResult.HasWb
      · have hdone : d.completedAt check = true := by simp [completedAt, hring, hwb]
        by_cases heop : x.toResult.eop = true
        · -- a block is ready: there is room for it, and it stays
          have heopAt : d.eopAt check = true := by simp [eopAt, hring, hwb, heop]
          have hno : ¬NoEopFrom c.toWzConsts d check := by
            intro hno
            have := hno 0 fun k hk => by
              rwa [Nat.le_zero.mp hk, Nat.add_zero, Nat.mod_eq_of_lt hcheck]
            rw [Nat.add_zero, Nat.mod_eq_of_lt hcheck, heopAt] at this
            cases this
          refine iff_of_false ?_ hno
          by_cases hroom : 0 < d.ext.kfifoSize
          · simp only [scanMove, hwb, heop, hempty, List.length_nil, hroom, if_true, reduceCtorEq,
              false_and, if_false, BlockScan.apply] at h
            have hpre := scanLoop_kfifo_prefix h
            intro hnil
            rw [hnil] at hpre
            exact absurd hpre (by simp)
          · have hzero : d.ext.kfifoSize = 0 := by omega
            simp [scanMove, hwb, heop, hempty, hzero] at h
        · have heopAt : d.eopAt check = false := by simp [eopAt, hring, heop]
          rw [noEopFrom_next hcheck hdone heopAt]
          simp only [scanMove, hwb, heop, if_true, if_false, Bool.false_eq_true, reduceCtorEq,
            false_and, BlockScan.apply] at h
          exact ih h hnext hempty
      · have hdone : d.completedAt check = false := by simp [completedAt, hring, hwb]
        simp only [scanMove, hwb, if_false, reduceCtorEq, false_and, BlockScan.apply,
          Except.ok.injEq] at h
        subst h
        refine iff_of_true hempty fun n hn => ?_
        have := hn 0 (Nat.zero_le n)
        rw [Nat.add_zero, Nat.mod_eq_of_lt hcheck, hdone] at this
        cases this

/-! ## The steps -/

/-- A service run stops the engine if the hardware is no longer busy. -/
theorem service_running {fuel : Nat} {status : Word}
    (h : wzEngineServiceCyclicInterrupt c fuel status d = .ok d') :
    d'.engine.running = (d.engine.running && decide (status &&& xdmaStatBusy ≠ 0)) := by
  unfold wzEngineServiceCyclicInterrupt at h
  dsimp only at h
  split at h
  · cases h
  rename_i t ht
  obtain ⟨b, rfl⟩ := scanLoop_ok ht
  unfold serviceShutdown at h
  split at h
  · rename_i hidle
    split at h
    · cases h
    · rw [← Except.ok.inj h]
      have hzero : ¬status &&& xdmaStatBusy ≠ 0 := fun hne => hne hidle.2
      rw [decide_eq_false hzero, Bool.and_false]
      rfl
  · rename_i hbusy
    rw [← Except.ok.inj h]
    show d.engine.running = _
    cases hrun : d.engine.running with
    | false => rfl
    | true =>
        have hne : status &&& xdmaStatBusy ≠ 0 := fun h0 => hbusy ⟨hrun, h0⟩
        rw [decide_eq_true hne]
        rfl

/-- What is left after a service run. -/
theorem service_drained_iff {c : RingConsts} {fuel : Nat} {status : Word}
    (hscan : d.ext.blockScannedDesc < c.nofbufs)
    (h : wzEngineServiceCyclicInterrupt c.toWzConsts fuel status d = .ok d') :
    Drained d' ↔ (d.engine.running = false ∨ status &&& xdmaStatBusy = 0 →
      d.ext.kfifo = [] ∧ NoBlockReady c.toWzConsts d) := by
  have hrun := service_running h
  obtain ⟨b, e, rfl, ⟨t, ht, rfl⟩, -⟩ := service_ok h
  have hstop : e.running = false ↔ d.engine.running = false ∨ status &&& xdmaStatBusy = 0 := by
    rw [hrun]
    cases d.engine.running <;> simp
  unfold Drained
  rw [hstop]
  refine imp_congr_right fun _ => ?_
  -- the status register is read before the scan, which does not look at it
  generalize hd₁ : { d with engine := { d.engine with status := status } } = d₁ at ht
  have hext : d₁.ext = d.ext := by rw [← hd₁]
  have hno : NoBlockReady c.toWzConsts d₁ ↔ NoBlockReady c.toWzConsts d := by rw [← hd₁]; rfl
  have hpre : d₁.ext.kfifo <+: t.ext.kfifo := scanLoop_kfifo_prefix ht
  rw [← hext] at hscan ht ⊢
  rw [← hno]
  constructor
  · intro hempty
    have hnil : t.ext.kfifo = [] := hempty
    rw [hnil, List.prefix_nil] at hpre
    exact ⟨hpre, noBlockReady_iff.mpr ((scanLoop_empty_iff ht hscan hpre).mp hnil)⟩
  · rintro ⟨hnil, hready⟩
    exact (scanLoop_empty_iff ht hscan hnil).mpr (noBlockReady_iff.mp hready)

/-- Steps that leave the FIFO alone or empty it, and do not stop the engine. -/
theorem Drained.of_frame (h : Drained d)
    (hk : d'.ext.kfifo = d.ext.kfifo ∨ d'.ext.kfifo = [])
    (hrun : d'.engine.running = false → d.engine.running = false) : Drained d' := by
  intro hstop
  rcases hk with he | he
  · rw [he]
    exact h (hrun hstop)
  · exact he

end Driver

open Driver

/-- A service run that leaves the engine stopped finds the FIFO empty and no block ready. -/
def stopsDrained (c : WzConsts) (s : Sys) : Act → Prop
  | .service _ status =>
      s.drv.engine.running = false ∨ status &&& xdmaStatBusy = 0 →
        s.drv.ext.kfifo = [] ∧ NoBlockReady c s.drv
  | _ => True

instance (c : WzConsts) (s : Sys) (a : Act) : Decidable (stopsDrained c s a) :=
  match a with
  | .service _ status => inferInstanceAs (Decidable (_ ∨ status &&& xdmaStatBusy = 0 → _ ∧ _))
  | .allocBuffers _ | .freeBuffers | .start _ | .stopRequest | .stopFinish | .getbuf _
  | .confirm _ | .perfStart _ _ | .perfStop _ | .writeback _ _ _ _ | .mmap _ | .fault _ _
  | .munmap _ => .isTrue trivial

/-- What the run keeps. -/
structure DrainInv (c : WzConsts) (d : Driver) : Prop where
  pointers : PointerInv c d
  drained : Drained d

theorem DrainInv.step {c : RingConsts} {s s' : Sys} {a : Act} (h : DrainInv c.toWzConsts s.drv)
    (hok : stopsDrained c.toWzConsts s a) (hs : Sys.step c.toWzConsts s a = some s') :
    DrainInv c.toWzConsts s'.drv := by
  have heff := Sys.step_effect hs
  refine ⟨h.pointers.step heff, ?_⟩
  have hd := h.drained
  generalize s'.drv = d' at heff
  cases heff with
  | allocBuffers env =>
      exact hd.of_frame (allocBuffers_sameRing c.toWzConsts env s.drv).2
        fun hstop => (allocBuffers_queueFrame c.toWzConsts env s.drv).engine.1 ▸ hstop
  | freeBuffers =>
      exact hd.of_frame (freeBuffers_sameRing c.toWzConsts s.drv).2
        fun hstop => (freeBuffers_queueFrame c.toWzConsts s.drv).engine.1 ▸ hstop
  | start hstart =>
      obtain ⟨hframe, -, hrun⟩ := start_frame hstart
      exact hd.of_frame (.inl hframe.kfifo) hrun
  | stopFinish hrun =>
      obtain ⟨t, desc, dma, he, -⟩ := stopFinish_ext c.toWzConsts s.drv
      refine hd.of_frame (.inl ?_) fun _ => hrun
      rw [he]
  | getbuf copyFails q hq =>
      intro hstop
      have hnil := hd hstop
      show q = []
      rcases hq with rfl | rfl <;> rw [hnil]
      rfl
  | contents ha hk hrun hlist => exact hd.of_frame (.inl rfl) fun hstop => hrun ▸ hstop
  | perfStart hperf =>
      refine hd.of_frame (.inl (by rw [hperf.ext])) fun hstop => ?_
      rcases hperf.engine with ⟨hrun, -⟩ | ⟨t, tr, hrun, -⟩
      · exact hrun ▸ hstop
      · rw [hrun] at hstop
        cases hstop
  | service hserv => exact (service_drained_iff h.pointers.scanned hserv).mpr hok
  | user ha => exact hd

/-- In every run whose service runs leave the engine stopped only with nothing left to hand
out, `GETBUF` reports `-EIO` only with an empty FIFO.  For a single service run the condition
is exact. -/
theorem getbuf_eio_only_when_empty (c : RingConsts) (s : Sys)
    (hs : Machine.Reach (Sys.step c.toWzConsts) (stopsDrained c.toWzConsts) .created s) :
    (∀ copyFails, (ioctlDoWzGetbuf copyFails s.drv).2.1 = -eio → s.drv.ext.kfifo = []) ∧
      ∀ fuel status s', Sys.step c.toWzConsts s (.service fuel status) = some s' →
        ((∀ copyFails, (ioctlDoWzGetbuf copyFails s'.drv).2.1 = -eio → s'.drv.ext.kfifo = []) ↔
          stopsDrained c.toWzConsts s (.service fuel status)) := by
  have hinv := hs.invariant (P := fun s => DrainInv c.toWzConsts s.drv)
    ⟨⟨PointersLive.created, c.nofbufs_pos⟩, fun _ => rfl⟩
    (fun _ _ _ _ hP hok hstep => hP.step hok hstep)
  have hiff : ∀ d : Driver, (∀ copyFails, (ioctlDoWzGetbuf copyFails d).2.1 = -eio →
      d.ext.kfifo = []) ↔ Drained d := by
    intro d
    unfold ioctlDoWzGetbuf Drained
    cases hrun : d.engine.running with
    | false => simp
    | true =>
        refine iff_of_true (fun copyFails herr => ?_) (fun hfalse => by cases hfalse)
        have hrc : (0 : Int) ≠ -eio ∧ -einval ≠ -eio := by decide
        cases copyFails
        · exact absurd herr hrc.1
        · exact absurd herr hrc.2
  refine ⟨(hiff s.drv).mpr hinv.drained, fun fuel status s' hstep => ?_⟩
  rw [hiff]
  have heff := Sys.step_effect hstep
  generalize s'.drv = d' at heff
  cases heff with
  | contents ha => cases ha
  | service hserv => exact service_drained_iff hinv.pointers.scanned hserv
  | user ha => cases ha

/-- The only block is fetched before the engine stops. -/
theorem getbuf_eio_after_fetch :
    ∃ s : Sys, Machine.Reach (Sys.step twoBuffers.toWzConsts) (stopsDrained twoBuffers.toWzConsts)
        .created s ∧
      (ioctlDoWzGetbuf false s.drv).2.1 = -eio ∧ s.drv.ext.kfifo = [] := by
  obtain ⟨s, hs, hp⟩ := Machine.exists_reach_of_execOk (Sys.step twoBuffers.toWzConsts)
    (stopsDrained twoBuffers.toWzConsts) .created
    [.allocBuffers allocGranted, .start startGranted, .writeback 3 0 true 7, .service 4 1,
      .getbuf false, .service 4 0]
    (fun s => decide ((ioctlDoWzGetbuf false s.drv).2.1 = -eio))
    (by decide +kernel)
  have heio := of_decide_eq_true hp
  exact ⟨s, hs, heio, (getbuf_eio_only_when_empty twoBuffers s hs).1 false heio⟩

/-- The device completes a packet and stops: the service run that reports the block also
shuts the engine down, and the block cannot be fetched. -/
theorem getbuf_eio_with_block_left :
    ∃ s : Sys, s.Reachable wzConsts.toWzConsts ∧ s.drv.ext.kfifo = [⟨0, 0, 7⟩] ∧
      ∀ copyFails, (ioctlDoWzGetbuf copyFails s.drv).2.1 = -eio := by
  obtain ⟨s, hs, hp⟩ := Machine.exists_reach_of_execOk (Sys.step wzConsts.toWzConsts)
    (fun _ _ => True) .created
    [.allocBuffers allocGranted, .start startGranted, .writeback 129 0 true 7, .service 2 0]
    (fun s => decide (s.drv.ext.kfifo = [⟨0, 0, 7⟩] ∧
      ∀ copyFails, (ioctlDoWzGetbuf copyFails s.drv).2.1 = -eio))
    (by decide +kernel)
  obtain ⟨hk, heio⟩ := of_decide_eq_true hp
  exact ⟨s, hs, hk, heio⟩

end WzXdma
