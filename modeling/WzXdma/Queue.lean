import WzXdma.Pointers

/-!
# The transfer queue and `ext->transfer`

The service routine takes the head of the queue and insists that it is the transfer
of the last `START`.  Neither `START` nor `PERF_START` looks at the queue before it
appends to it, so the two can part.  They agree for as long as `START` finds the
queue empty and a measurement is only added to a running engine.
-/

namespace WzXdma

open Lib Lib.Loop

namespace Driver

variable {c : WzConsts} {d d' : Driver}

/-- `START` gets as far as its transfer. -/
def startsTransfer (c : WzConsts) (env : StartEnv) (d : Driver) : Prop :=
  d.ext.bufReady = true ∧ ∀ i, i < c.nofbufs → (env.coherent i).isSome = true

/-- `PERF_START` gets as far as its transfer. -/
def perfSubmits (env : PerfEnv) (request : PerfIoctl) (d : Driver) : Prop :=
  d.engine.xdmaPerf = none ∧ env.perf = true ∧ request.version = ioctlXdmaPerfV1

/-- A transfer of the measurement. -/
def IsPerf (d : Driver) (t : Nat) : Prop := ∃ tr, d.kern.transfers t = some tr ∧ tr.wz = false

/-- The queue of a running engine is the transfer of the last `START` followed by
transfers of the measurement, which are all that is left when it stands. -/
structure QueueInv (d : Driver) : Prop where
  queued_lt : ∀ t ∈ d.engine.transferList, t < d.kern.next
  transfer_lt : ∀ t, d.ext.transfer = some t → t < d.kern.next
  transfer_wz : ∀ t tr, d.ext.transfer = some t → d.kern.transfers t = some tr → tr.wz = true
  idle : d.engine.running = false → ∀ t ∈ d.engine.transferList, d.IsPerf t
  running : d.engine.running = true → ∃ t tr rest, d.engine.transferList = t :: rest ∧
    d.ext.transfer = some t ∧ d.kern.transfers t = some tr ∧ ∀ r ∈ rest, d.IsPerf r

/-- Nothing that the queue depends on is different, except that objects may be new. -/
structure QueueFrame (d t : Driver) : Prop where
  engine : t.engine.running = d.engine.running ∧ t.engine.transferList = d.engine.transferList
  transfers : t.kern.transfers = d.kern.transfers
  transfer : t.ext.transfer = d.ext.transfer
  next : d.kern.next ≤ t.kern.next

theorem QueueFrame.refl (d : Driver) : QueueFrame d d := ⟨⟨rfl, rfl⟩, rfl, rfl, Nat.le_refl _⟩

theorem QueueFrame.trans {t u : Driver} (h : QueueFrame d t) (h' : QueueFrame t u) :
    QueueFrame d u :=
  ⟨⟨h'.engine.1.trans h.engine.1, h'.engine.2.trans h.engine.2⟩, h'.transfers.trans h.transfers,
    h'.transfer.trans h.transfer, Nat.le_trans h.next h'.next⟩

theorem QueueInv.of_frame (h : QueueInv d) (hf : QueueFrame d d') : QueueInv d' := by
  have hperf : ∀ t, d.IsPerf t → d'.IsPerf t := by
    intro t ht
    rw [IsPerf, hf.transfers]
    exact ht
  constructor
  · rw [hf.engine.2]
    exact fun t ht => Nat.lt_of_lt_of_le (h.queued_lt t ht) hf.next
  · intro t ht
    rw [hf.transfer] at ht
    exact Nat.lt_of_lt_of_le (h.transfer_lt t ht) hf.next
  · rw [hf.transfer, hf.transfers]
    exact h.transfer_wz
  · rw [hf.engine.1, hf.engine.2]
    exact fun hrun t ht => hperf t (h.idle hrun t ht)
  · rw [hf.engine.1, hf.engine.2, hf.transfer, hf.transfers]
    intro hrun
    obtain ⟨t, tr, rest, hlist, htransfer, htr, hrest⟩ := h.running hrun
    exact ⟨t, tr, rest, hlist, htransfer, htr, fun r hr => hperf r (hrest r hr)⟩

/-! ## The routines that leave the queue alone -/

theorem BuffersOnly.queueFrame (h : BuffersOnly d d') : QueueFrame d d' := by
  obtain ⟨_, _, _, _, _, _, hn, rfl⟩ := h
  exact ⟨⟨rfl, rfl⟩, rfl, rfl, hn⟩

theorem releaseCopy_queueFrame (d : Driver) : QueueFrame d d.releaseCopy := by
  obtain ⟨-, he⟩ | ⟨v, fs, -, he⟩ := d.releaseCopy_cases <;> rw [he] <;>
    exact ⟨⟨rfl, rfl⟩, rfl, rfl, Nat.le_refl _⟩

theorem allocBuffers_queueFrame (c : WzConsts) (env : AllocEnv) (d : Driver) :
    QueueFrame d (ioctlDoWzAllocBuffers c env d).1 := by
  obtain ⟨t, junk, ht, he⟩ | ⟨u, t, hu, rfl, he⟩ := ioctlDoWzAllocBuffers_cases c env d
  · rw [he]
    exact (allocLoop_buffersOnly ht).queueFrame.trans ⟨⟨rfl, rfl⟩, rfl, rfl, Nat.le_succ _⟩
  · have hu' : QueueFrame d u := by
      cases hu with
      | buffer hi ht hu =>
          exact ((allocLoop_buffersOnly ht).trans (allocBuffer_error hu).1).queueFrame
      | copy ht =>
          exact (allocLoop_buffersOnly ht).queueFrame.trans ⟨⟨rfl, rfl⟩, rfl, rfl, Nat.le_refl _⟩
      | kfifo _ ht =>
          exact (allocLoop_buffersOnly ht).queueFrame.trans ⟨⟨rfl, rfl⟩, rfl, rfl, Nat.le_succ _⟩
    rw [he]
    exact ((hu'.trans (releaseAll_buffersOnly c.nofbufs u).queueFrame).trans
      (releaseCopy_queueFrame _)).trans ⟨⟨rfl, rfl⟩, rfl, rfl, Nat.le_refl _⟩

theorem freeBuffers_queueFrame (c : WzConsts) (d : Driver) :
    QueueFrame d (ioctlDoWzFreeBuffers c d).1 := by
  refine QueueFrame.trans ?_ (releaseCopy_queueFrame _)
  dsimp only
  split
  · exact (releaseAll_buffersOnly c.nofbufs d).queueFrame.trans
      ⟨⟨rfl, rfl⟩, rfl, rfl, Nat.le_refl _⟩
  · exact ⟨⟨rfl, rfl⟩, rfl, rfl, Nat.le_refl _⟩

theorem startClean_queueFrame (i : Nat) (d : Driver) : QueueFrame d (startClean i d) := by
  obtain ⟨coh, fs, he, -⟩ := startClean_eq i d
  rw [he]
  exact ⟨⟨rfl, rfl⟩, rfl, rfl, Nat.le_refl _⟩

/-- The first loop of `START` leaves the queue alone, and gets every descriptor it asks
for when it ends normally. -/
theorem startBuild_queueFrame {env : StartEnv} {n : Nat}
    (h : forUpTo (startBuild env) n d = .ok d') :
    QueueFrame d d' ∧ ∀ i, i < n → (env.coherent i).isSome = true := by
  refine forUpTo_ok (fun n t => QueueFrame d t ∧ ∀ i, i < n → (env.coherent i).isSome = true)
    ⟨.refl d, fun i hi => absurd hi (Nat.not_lt_zero i)⟩ ?_ h
  rintro n t t' - ⟨hframe, hall⟩ hb
  obtain ⟨mem, coh, fs, hmem, rfl, -⟩ := startBuild_ok hb
  refine ⟨hframe.trans ⟨⟨rfl, rfl⟩, rfl, rfl, Nat.le_succ _⟩, fun i hi => ?_⟩
  by_cases hin : i = n
  · rw [hin, hmem]
    rfl
  · exact hall i (by omega)

theorem startFill_queueFrame {n : Nat} (h : forUpTo (startFill c) n d = .ok d') :
    QueueFrame d d' := by
  refine forUpTo_ok (fun _ t => QueueFrame d t) (.refl d) ?_ h
  intro n t t' _ hframe hf
  obtain ⟨x, bus, y, rest, v, arr, -, -, -, -, rfl⟩ := startFill_ok hf
  exact hframe.trans ⟨⟨rfl, rfl⟩, rfl, rfl, Nat.le_refl _⟩

/-! ## START -/

/-- Only a `START` that gets as far as its transfer changes anything. -/
theorem start_queue {env : StartEnv} {rc : Int} (h : ioctlDoWzStart c env d = .ok (d', rc)) :
    QueueFrame d d' ∨ ∃ t, startsTransfer c env d ∧ QueueFrame d t ∧
      (startQueue c env t = .ok d' ∨
        QueueFrame { t with ext := { t.ext with transfer := none } } d') := by
  have hreset : QueueFrame d
      { d with ext := { d.ext with blockFirstDesc := 0, blockScannedDesc := 0 } } :=
    ⟨⟨rfl, rfl⟩, rfl, rfl, Nat.le_refl _⟩
  obtain ⟨-, rfl, -⟩ | ⟨-, t, i, ht, hi, rfl, -⟩ | ⟨hready, t, k, t', ht, hk, hf, hend⟩ :=
    ioctlDoWzStart_ends h
  · exact .inl (.refl d')
  · exact .inl ((hreset.trans (startBuild_queueFrame ht).1).trans (startClean_queueFrame i t))
  · obtain ⟨hframe, hall⟩ := startBuild_queueFrame ht
    have hsame := Kernel.modifyDesc_sameObjects hk
    have hlink : QueueFrame t { t with kern := k } :=
      ⟨⟨rfl, rfl⟩, hsame.transfers, rfl, Nat.le_of_eq hsame.next.symm⟩
    have hframe' := ((hreset.trans hframe).trans hlink).trans (startFill_queueFrame hf)
    refine .inr ⟨t', ⟨hready, hall⟩, hframe', ?_⟩
    obtain ⟨hq, -⟩ | ⟨rfl, -⟩ := hend
    · exact .inl hq
    · refine .inr (upTo_invariant (fun _ => QueueFrame _) (.refl _) fun i u _ hu => ?_)
      obtain ⟨coh, fs, he, -⟩ := startUndo_eq i u
      rw [he]
      exact hu.trans ⟨⟨rfl, rfl⟩, rfl, rfl, Nat.le_refl _⟩

/-- `START` on an empty queue. -/
theorem QueueInv.start {env : StartEnv} {rc : Int} (h : QueueInv d)
    (hok : startsTransfer c env d → d.engine.transferList = [])
    (hs : ioctlDoWzStart c env d = .ok (d', rc)) : QueueInv d' := by
  obtain hframe | ⟨t, hstarts, hframe, hend⟩ := start_queue hs
  · exact h.of_frame hframe
  have ht := h.of_frame hframe
  have hlist : t.engine.transferList = [] := hframe.engine.2.trans (hok hstarts)
  have hidle : t.engine.running = false := by
    cases hrun : t.engine.running with
    | false => rfl
    | true =>
        obtain ⟨x, tr, rest, hx, -⟩ := ht.running hrun
        rw [hlist] at hx
        cases hx
  rcases hend with hq | hdrop
  · obtain ⟨tr, e, rfl, hother, ⟨x, hx, hwz⟩, he⟩ := startQueue_ok hq
    constructor
    · intro y hy
      rcases he with rfl | ⟨-, hlist', -⟩
      · exact Nat.lt_succ_of_lt (ht.queued_lt y hy)
      · rw [hlist', hlist, List.nil_append, List.mem_singleton] at hy
        rw [hy]
        exact Nat.lt_succ_self _
    · rintro y hy
      obtain rfl := Option.some.inj hy
      exact Nat.lt_succ_self _
    · rintro y z hy hz
      obtain rfl := Option.some.inj hy
      obtain rfl := Option.some.inj (hx.symm.trans hz)
      exact hwz
    · rintro hrun y hy
      rcases he with rfl | ⟨hrun', -⟩
      · rw [hlist] at hy
        cases hy
      · exact absurd (hrun'.symm.trans hrun) (by decide)
    · intro hrun
      rcases he with rfl | ⟨-, hlist', -⟩
      · exact absurd (hidle.symm.trans hrun) (by decide)
      · rw [hlist, List.nil_append] at hlist'
        exact ⟨t.kern.next, x, [], hlist', rfl, hx, fun r hr => by cases hr⟩
  · have hdropped : QueueInv { t with ext := { t.ext with transfer := none } } := by
      refine ⟨ht.queued_lt, fun y hy => ?_, fun y z hy => ?_, ht.idle, fun hrun => ?_⟩
      · cases hy
      · cases hy
      · exact absurd (hidle.symm.trans hrun) (by decide)
    exact hdropped.of_frame hdrop

/-! ## STOP, the measurement and the service routine -/

/-- `STOP` frees the transfer of the last `START`, which a standing engine does not queue. -/
theorem QueueInv.stopFinish (h : QueueInv d) (hrun : d.engine.running = false) :
    QueueInv (ioctlDoWzStopFinish c d).1 := by
  have htransfer : QueueInv d.stopTransfer := by
    obtain ⟨-, he⟩ | ⟨t, fs, ht, he⟩ := d.stopTransfer_cases
    · rw [he]
      exact h
    · rw [he]
      refine ⟨h.queued_lt, fun x hx => ?_, fun x tr hx => ?_, fun _ x hx => ?_, fun hrun' => ?_⟩
      · cases hx
      · cases hx
      · -- what is queued belongs to a measurement, and the freed transfer does not
        obtain ⟨tr, htr, hperf⟩ := h.idle hrun x hx
        have hxt : x ≠ t := by
          rintro rfl
          rw [h.transfer_wz x tr ht htr] at hperf
          cases hperf
        exact ⟨tr, by simp only [Function.update_of_ne hxt, htr], hperf⟩
      · exact absurd (hrun.symm.trans hrun') (by decide)
  unfold ioctlDoWzStopFinish
  rw [if_neg (by simp [hrun])]
  refine upTo_invariant (fun _ => QueueInv) htransfer fun i u _ hu => ?_
  obtain ⟨-, he⟩ | ⟨x, fs, -, -, he⟩ := stopFree_cases i u
  · rw [he]
    exact hu
  · rw [he]
    exact hu.of_frame ⟨⟨rfl, rfl⟩, rfl, rfl, Nat.le_refl _⟩

/-- A measurement that is refused. -/
theorem perfStart_refused {env : PerfEnv} {request : PerfIoctl} {rc : Int}
    (hno : ¬perfSubmits env request d) (h : ioctlDoPerfStart env request d = .ok (d', rc)) :
    QueueFrame d d' := by
  unfold ioctlDoPerfStart at h
  split at h
  · simp only [Except.ok.injEq, Prod.mk.injEq] at h
    exact h.1 ▸ .refl d
  rename_i hnone
  split at h
  · simp only [Except.ok.injEq, Prod.mk.injEq] at h
    exact h.1 ▸ .refl d
  rename_i hperf
  dsimp only at h
  split at h
  · simp only [Except.ok.injEq, Prod.mk.injEq] at h
    exact h.1 ▸ ⟨⟨rfl, rfl⟩, rfl, rfl, Nat.le_refl _⟩
  rename_i hversion
  refine absurd ⟨?_, ?_, ?_⟩ hno
  · simpa using hnone
  · simpa using hperf
  · simpa using hversion

/-- A measurement is added to the queue of a running engine. -/
theorem QueueInv.perfStart {env : PerfEnv} {request : PerfIoctl} {rc : Int} (h : QueueInv d)
    (hok : perfSubmits env request d → d.engine.running = true)
    (hs : ioctlDoPerfStart env request d = .ok (d', rc)) : QueueInv d' := by
  by_cases hsub : perfSubmits env request d
  · have he := ioctlDoPerfStart_ok hs
    obtain ⟨t, tr, rest, hlist, htransfer, htr, hrest⟩ := h.running (hok hsub)
    have hperf : ∀ r, r ∈ d.engine.transferList → d.IsPerf r → d'.IsPerf r := by
      intro r hr hp
      rw [IsPerf, he.transfers r (h.queued_lt r hr)]
      exact hp
    have htlt := h.transfer_lt t htransfer
    have hnew : ∃ more, d'.engine.running = true ∧
        d'.engine.transferList = d.engine.transferList ++ more ∧
        ∀ r ∈ more, r < d'.kern.next ∧ d'.IsPerf r := by
      rcases he.engine with ⟨hrun, hsame⟩ | ⟨r, x, hrun, hmore, -, hr, hx, hwz⟩
      · exact ⟨[], hrun.trans (hok hsub), by rw [hsame, List.append_nil], fun r hr => by cases hr⟩
      · refine ⟨[r], hrun, hmore, fun y hy => ?_⟩
        rw [List.mem_singleton.mp hy]
        exact ⟨hr, x, hx, hwz⟩
    obtain ⟨more, hrun, hlist', hmore⟩ := hnew
    constructor
    · intro y hy
      rw [hlist', List.mem_append] at hy
      rcases hy with hy | hy
      · exact Nat.lt_of_lt_of_le (h.queued_lt y hy) he.next
      · exact (hmore y hy).1
    · rw [he.ext]
      exact fun y hy => Nat.lt_of_lt_of_le (h.transfer_lt y hy) he.next
    · rw [he.ext]
      intro y z hy hz
      rw [he.transfers y (h.transfer_lt y hy)] at hz
      exact h.transfer_wz y z hy hz
    · exact fun hidle => absurd (hrun.symm.trans hidle) (by decide)
    · intro _
      refine ⟨t, tr, rest ++ more, ?_, ?_, ?_, fun r hr => ?_⟩
      · rw [hlist', hlist, List.cons_append]
      · rw [he.ext, htransfer]
      · rw [he.transfers t htlt, htr]
      · rcases List.mem_append.mp hr with hr | hr
        · exact hperf r (by rw [hlist]; exact List.mem_cons_of_mem _ hr) (hrest r hr)
        · exact (hmore r hr).2
  · exact h.of_frame (perfStart_refused hsub hs)

theorem QueueInv.service {fuel : Nat} {status : Word} (h : QueueInv d)
    (hs : wzEngineServiceCyclicInterrupt c fuel status d = .ok d') : QueueInv d' := by
  obtain ⟨b, e, rfl, -, -, ⟨hrun, hlist⟩ | ⟨hrun, hrun', -, hlist⟩⟩ := service_ok hs
  · exact h.of_frame ⟨⟨hrun, hlist⟩, rfl, rfl, Nat.le_refl _⟩
  · obtain ⟨t, tr, rest, hq, -, -, hrest⟩ := h.running hrun
    refine ⟨fun x hx => ?_, h.transfer_lt, h.transfer_wz, fun _ x hx => ?_, fun hr => ?_⟩
    · rw [hlist] at hx
      exact h.queued_lt x (List.mem_of_mem_tail hx)
    · rw [hlist, hq] at hx
      exact hrest x hx
    · exact absurd (hrun'.symm.trans hr) (by decide)

/-- The scan itself has no `BUG_ON`. -/
theorem scanLoop_ne_bugOn {fuel check : Nat} : scanLoop c fuel check d ≠ .error .bugOn := by
  induction fuel generalizing check d with
  | zero => simp [scanLoop]
  | succ fuel ih =>
      intro h
      unfold scanLoop at h
      split at h
      · rename_i e he
        rw [Except.error.injEq] at h
        subst h
        unfold Kernel.derefDesc at he
        split at he
        · cases he
        · split at he
          · cases he
          · split at he <;> cases he
      · dsimp only at h
        split at h
        · cases h
        · split at h
          · cases h
          · exact ih h

/-- The `BUG_ON` is hit by an idle engine whose queue does not begin with the transfer. -/
theorem service_bugOn {fuel : Nat} {status : Word}
    (h : wzEngineServiceCyclicInterrupt c fuel status d = .error .bugOn) :
    d.engine.running = true ∧ d.engine.transferList ≠ [] ∧
      d.engine.transferList.head? ≠ d.ext.transfer := by
  unfold wzEngineServiceCyclicInterrupt at h
  dsimp only at h
  split at h
  · rename_i e he
    rw [Except.error.injEq] at h
    exact absurd (h ▸ he) scanLoop_ne_bugOn
  · rename_i t ht
    obtain ⟨b, rfl⟩ := scanLoop_ok ht
    unfold serviceShutdown wzEngineTransferDequeue at h
    split at h
    · rename_i hrun
      by_cases hl : d.engine.transferList = []
      · simp [hl] at h
      · refine ⟨hrun.1, hl, fun hhead => ?_⟩
        simp [hl, hhead] at h
    · cases h

/-- What is queued and does not belong to a measurement. -/
def queuedWz (d : Driver) : List Nat :=
  d.engine.transferList.filter fun t => (d.kern.transfers t).all (·.wz)

theorem queuedWz_perf {ts : List Nat} (h : ∀ t ∈ ts, d.IsPerf t) :
    ts.filter (fun t => (d.kern.transfers t).all (·.wz)) = [] := by
  rw [List.filter_eq_nil_iff]
  intro t ht
  obtain ⟨tr, htr, hwz⟩ := h t ht
  simp [htr, hwz]

theorem QueueInv.head (h : QueueInv d) (hrun : d.engine.running = true) :
    d.engine.transferList.head? = d.ext.transfer := by
  obtain ⟨t, tr, rest, hlist, htransfer, -⟩ := h.running hrun
  rw [hlist, htransfer, List.head?_cons]

theorem QueueInv.queued (h : QueueInv d) :
    (∀ t ∈ d.engine.transferList, (d.kern.transfers t).isSome = true) ∧
      (d.queuedWz = [] ∨ ∃ t, d.queuedWz = [t] ∧ d.ext.transfer = some t) := by
  have hsome : ∀ t, d.IsPerf t → (d.kern.transfers t).isSome = true := by
    rintro t ⟨tr, htr, -⟩
    rw [htr]
    rfl
  cases hrun : d.engine.running with
  | false => exact ⟨fun t ht => hsome t (h.idle hrun t ht), .inl (queuedWz_perf (h.idle hrun))⟩
  | true =>
      obtain ⟨t, tr, rest, hlist, htransfer, htr, hrest⟩ := h.running hrun
      refine ⟨fun x hx => ?_, .inr ⟨t, ?_, htransfer⟩⟩
      · rw [hlist] at hx
        rcases List.mem_cons.mp hx with rfl | hx
        · rw [htr]
          rfl
        · exact hsome x (hrest x hx)
      · have hwz := h.transfer_wz t tr htransfer htr
        rw [queuedWz, hlist, List.filter_cons_of_pos (by simp [htr, hwz]), queuedWz_perf hrest]

end Driver

/-! ## All runs -/

/-- `START` comes to its transfer only when the queue is empty, and `PERF_START` only when
the engine is running. -/
def queuesInTurn (c : WzConsts) (s : Sys) : Act → Prop
  | .start env => s.drv.startsTransfer c env → s.drv.engine.transferList = []
  | .perfStart env request => s.drv.perfSubmits env request → s.drv.engine.running = true
  | _ => True

theorem Driver.QueueInv.step {c : WzConsts} {s s' : Sys} {a : Act} (h : s.drv.QueueInv)
    (hok : queuesInTurn c s a) (hs : Sys.step c s a = some s') : s'.drv.QueueInv := by
  have heffect := Sys.step_effect hs
  obtain ⟨d, rc, hd, rfl⟩ := Sys.step_eq_some hs
  cases heffect with
  | allocBuffers env => exact h.of_frame (allocBuffers_queueFrame c env s.drv)
  | freeBuffers => exact h.of_frame (freeBuffers_queueFrame c s.drv)
  | start hstart => exact h.start hok hstart
  | stopFinish hrun => exact h.stopFinish hrun
  | getbuf copyFails q hq => exact h.of_frame ⟨⟨rfl, rfl⟩, rfl, rfl, Nat.le_refl _⟩
  | contents ha hk hrun hlist =>
      exact h.of_frame ⟨⟨hrun, hlist⟩, hk.transfers, rfl, Nat.le_of_eq hk.next.symm⟩
  | perfStart _ => exact h.perfStart hok (toOption_eq_some.mp hd)
  | service hservice => exact h.service hservice
  | user ha => exact h

theorem Driver.QueueInv.created : Driver.created.QueueInv where
  queued_lt := fun t ht => by cases ht
  transfer_lt := fun t ht => by cases ht
  transfer_wz := fun t tr ht => by cases ht
  idle := fun _ t ht => by cases ht
  running := fun hrun => by cases hrun

/-- When `START` and `PERF_START` come in turn, the service routine dequeues the transfer of
the last `START`, its `BUG_ON` is not hit, and that transfer is the only one of the
driver in the queue, where everything is allocated. -/
theorem queue_agrees (c : WzConsts) (s : Sys)
    (hs : Machine.Reach (Sys.step c) (queuesInTurn c) .created s) :
    (s.drv.engine.running = true → s.drv.engine.transferList ≠ [] →
      s.drv.engine.transferList.head? = s.drv.ext.transfer) ∧
    (∀ fuel status, s.drv.wzEngineServiceCyclicInterrupt c fuel status ≠ .error .bugOn) ∧
    (∀ t ∈ s.drv.engine.transferList, (s.drv.kern.transfers t).isSome = true) ∧
    (s.drv.queuedWz = [] ∨ ∃ t, s.drv.queuedWz = [t] ∧ s.drv.ext.transfer = some t) := by
  have hinv : s.drv.QueueInv := hs.invariant (P := fun s => s.drv.QueueInv) .created
    fun _ _ _ _ hP hok hstep => hP.step hok hstep
  refine ⟨fun hrun _ => hinv.head hrun, fun fuel status hbug => ?_, hinv.queued⟩
  obtain ⟨hrun, -, hhead⟩ := Driver.service_bugOn hbug
  exact hhead (hinv.head hrun)

instance (c : WzConsts) (env : StartEnv) (d : Driver) : Decidable (d.startsTransfer c env) :=
  inferInstanceAs (Decidable (_ ∧ ∀ i, i < c.nofbufs → _))

instance (env : PerfEnv) (request : PerfIoctl) (d : Driver) : Decidable (d.perfSubmits env request) :=
  inferInstanceAs (Decidable (_ ∧ _ ∧ _))

instance (c : WzConsts) (s : Sys) (a : Act) : Decidable (queuesInTurn c s a) :=
  match a with
  | .start _ => inferInstanceAs (Decidable (_ → _))
  | .perfStart _ _ => inferInstanceAs (Decidable (_ → _))
  | .allocBuffers _ | .freeBuffers | .stopRequest | .stopFinish | .getbuf _ | .confirm _
  | .perfStop _ | .service _ _ | .writeback _ _ _ _ | .mmap _ | .fault _ _ | .munmap _ =>
      isTrue trivial

/-- A measurement is queued behind a running transfer. -/
theorem queue_agrees_perf :
    ∃ s : Sys, Machine.Reach (Sys.step twoBuffers.toWzConsts) (queuesInTurn twoBuffers.toWzConsts)
        .created s ∧
      s.drv.engine.transferList.length = 2 ∧ s.drv.engine.running = true ∧
      s.drv.engine.transferList.head? = s.drv.ext.transfer := by
  obtain ⟨s, hs, hp⟩ := Machine.exists_reach_of_execOk (Sys.step twoBuffers.toWzConsts)
    (queuesInTurn twoBuffers.toWzConsts) .created
    [.allocBuffers allocGranted, .start startGranted, .perfStart perfGranted perfRequest]
    (fun s => decide (s.drv.engine.transferList.length = 2 ∧ s.drv.engine.running = true))
    (by decide +kernel)
  obtain ⟨hlen, hrun⟩ := of_decide_eq_true hp
  have hne : s.drv.engine.transferList ≠ [] := by
    intro hnil
    rw [hnil] at hlen
    cases hlen
  exact ⟨s, hs, hlen, hrun, (queue_agrees twoBuffers.toWzConsts s hs).1 hrun hne⟩

/-- Two calls of `START` queue two transfers, and the interrupt that finds the engine idle
hits the `BUG_ON`. -/
theorem queue_differs_after_start_twice :
    ∃ s : Sys, s.Reachable wzConsts.toWzConsts ∧ s.drv.queuedWz.length = 2 ∧
      s.drv.engine.running = true ∧ s.drv.engine.transferList.head? ≠ s.drv.ext.transfer ∧
      s.drv.wzEngineServiceCyclicInterrupt wzConsts.toWzConsts 1 0 = .error .bugOn := by
  obtain ⟨s, hs, hp⟩ := Machine.exists_reach_of_execOk (Sys.step wzConsts.toWzConsts)
    (fun _ _ => True) .created
    [.allocBuffers allocGranted, .start startGranted, .start startGranted]
    (fun s => decide (s.drv.queuedWz.length = 2 ∧ s.drv.engine.running = true ∧
      s.drv.engine.transferList.head? ≠ s.drv.ext.transfer ∧
      errorOf (s.drv.wzEngineServiceCyclicInterrupt wzConsts.toWzConsts 1 0) = some .bugOn))
    (by decide +kernel)
  obtain ⟨h1, h2, h3, hbug⟩ := of_decide_eq_true hp
  exact ⟨s, hs, h1, h2, h3, errorOf_eq_some.mp hbug⟩

end WzXdma
