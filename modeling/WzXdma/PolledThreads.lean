import WzXdma.PolledQueue

/-!
# Several threads on one polled engine

Each thread queues a transfer under the lock, polls the writeback without it, and services the
engine under the lock with the value it has read.  A service takes transfers off the list, clears
the writeback and starts the engine with the next transfer, so the value that another thread
still holds may belong to the transfer before.

`progress t` counts the descriptors of `t` that the device has completed since the engine was
last started with it, and a value is kept with the number of starts at the time it was read.
Neither is in the source.
-/

namespace WzXdma

open Lib

/-- Where a thread is. -/
inductive ThreadPhase
  | outside
  | queued (t : Nat)
  /-- the polling has ended with `descWb`, after the engine had been started `epoch` times -/
  | sampled (t : Nat) (descWb : Word) (epoch : Nat)
  deriving DecidableEq, Repr

structure Threads where
  polled : Polled
  progress : Nat → Nat
  phase : Nat → ThreadPhase
  crashed : Bool

inductive ThreadAct
  | queue (thread : Nat) (transfer : XdmaTransfer)
  | sample (thread : Nat) (timedOut : Bool)
  | service (thread : Nat) (status : Word)
  /-- the device completes a descriptor -/
  | complete
  /-- the device reports an error in the writeback -/
  | fault

namespace Threads

def start (p : Polled) : Threads where
  polled := p
  progress := fun _ => 0
  phase := fun _ => .outside
  crashed := false

/-- The device counts from zero when the engine is started. -/
def countFrom (p p' : Polled) (progress : Nat → Nat) : Nat → Nat :=
  if p'.starts = p.starts then progress
  else
    match p'.started with
    | none => progress
    | some t => Function.update progress t 0

theorem countFrom_of_eq {p p' : Polled} (h : p'.starts = p.starts) (progress : Nat → Nat) :
    countFrom p p' progress = progress := if_pos h

theorem countFrom_congr {p p' q : Polled} (h : p'.starts = p.starts) (progress : Nat → Nat) :
    countFrom p' q progress = countFrom p q progress := by
  unfold countFrom
  rw [h]

/-- The number of descriptors completed since the start, which the device shows in a register. -/
def completedDescCount (s : Threads) : Nat :=
  match s.polled.started with
  | none => 0
  | some t => s.progress t

/-- What a routine that ran under the lock leaves behind. -/
def unlock (s : Threads) (thread : Nat) (next : Int → ThreadPhase) :
    Polled × Except Crash Int → Threads
  | (p, .error _) =>
      { s with polled := p, progress := countFrom s.polled p s.progress, crashed := true }
  | (p, .ok rc) =>
      { s with
        polled := p
        progress := countFrom s.polled p s.progress
        phase := Function.update s.phase thread (next rc) }

/-- `transfer_queue` for a new transfer -/
def queue (s : Threads) (thread : Nat) (transfer : XdmaTransfer) : Option Threads :=
  match s.phase thread with
  | .outside =>
      if transfer.state = .new then
        match s.polled.kern.kzallocTransfer true transfer with
        | (_, none) => none
        | (k, some t) =>
            some (s.unlock thread (fun rc => if rc = 0 then .queued t else .outside)
              ((s.polled.setKern k).transferQueue t))
      else none
  | _ => none

/-- The last read of `engine_service_wb_monitor`, which `transfer_monitor` calls with the number of
descriptors of the transfer.  The earlier reads are not kept. -/
def sample (s : Threads) (thread : Nat) (timedOut : Bool) : Option Threads :=
  match s.phase thread with
  | .queued t =>
      match s.polled.kern.transfers t with
      | none => some { s with crashed := true }
      | some transfer =>
          let expected := BitVec.ofNat 32 transfer.descNum
          let wb := s.polled.wb
          if expected &&& wbCountMask ≠ expected then
            some { s with phase := Function.update s.phase thread .outside }
          else if expected = 0 ∨ wb &&& wbErrMask ≠ 0 ∨ wb = expected ∨ timedOut = true then
            some { s with
              phase := Function.update s.phase thread
                (.sampled t (Polled.engineServiceWbMonitor expected [wb]) s.polled.starts) }
          else none
  | _ => none

/-- `engine_service` with the value that was read -/
def service (s : Threads) (thread : Nat) (status : Word) : Option Threads :=
  match s.phase thread with
  | .sampled _ descWb _ =>
      some (s.unlock thread (fun _ => .outside)
        (s.polled.engineService descWb ⟨status, BitVec.ofNat 32 s.completedDescCount⟩))
  | _ => none

/-- The device completes the next descriptor of the transfer that the engine was started with. -/
def complete (s : Threads) : Option Threads :=
  if s.polled.engine.running then
    match s.polled.started with
    | none => none
    | some t =>
        match s.polled.kern.transfers t with
        | none => none
        | some transfer =>
            if s.progress t < transfer.descNum then
              some { s with
                polled := { s.polled with wb := BitVec.ofNat 32 (s.progress t + 1) &&& wbCountMask }
                progress := Function.update s.progress t (s.progress t + 1) }
            else none
  else none

def fault (s : Threads) : Option Threads :=
  if s.polled.engine.running then
    some { s with polled := { s.polled with wb := s.polled.wb ||| wbErrMask } }
  else none

def step (s : Threads) (a : ThreadAct) : Option Threads :=
  if s.crashed then none
  else
    match a with
    | .queue thread transfer => s.queue thread transfer
    | .sample thread timedOut => s.sample thread timedOut
    | .service thread status => s.service thread status
    | .complete => s.complete
    | .fault => s.fault

/-- A completed transfer has all its descriptors completed since the start with it. -/
def Attributed (s : Threads) : Prop :=
  ∀ t transfer, s.polled.kern.transfers t = some transfer → transfer.state = .completed →
    s.progress t = transfer.descNum

/-- If the engine is running, the value was read since its last start, and the transfer of that
start is the first one on the list.  It is not when an earlier service saw a busy engine and no
count: then it took the transfer off and let the engine run. -/
def Current (s : Threads) : ThreadPhase → Prop
  | .sampled _ _ epoch =>
      s.polled.engine.running = true →
        epoch = s.polled.starts ∧ s.polled.engine.transferList.head? = s.polled.started
  | .outside | .queued _ => True

instance (s : Threads) (phase : ThreadPhase) : Decidable (s.Current phase) :=
  match phase with
  | .sampled _ _ epoch => inferInstanceAs (Decidable (s.polled.engine.running = true →
      epoch = s.polled.starts ∧ s.polled.engine.transferList.head? = s.polled.started))
  | .outside | .queued _ => .isTrue trivial

/-- The engine is serviced with current values only. -/
def servicesCurrent (s : Threads) : ThreadAct → Prop
  | .service thread _ => s.Current (s.phase thread)
  | _ => True

instance (s : Threads) (a : ThreadAct) : Decidable (s.servicesCurrent a) :=
  match a with
  | .service thread _ => inferInstanceAs (Decidable (s.Current (s.phase thread)))
  | .queue _ _ | .sample _ _ | .complete | .fault => .isTrue trivial

end Threads

/-! ## The value that the polling ends with -/

theorem count_toNat_le (w : Word) : (w &&& wbCountMask).toNat ≤ w.toNat := by
  rw [BitVec.toNat_and]
  exact Nat.and_le_left

/-- The error bit is no part of the count. -/
theorem count_or_err (w : Word) : (w ||| wbErrMask) &&& wbCountMask = w &&& wbCountMask := by
  have hzero : wbErrMask &&& wbCountMask = 0#32 := by decide
  rw [BitVec.and_or_distrib_right, hzero, BitVec.or_zero]

theorem wbMonitor_count_le (expected wb : Word) :
    (Polled.engineServiceWbMonitor expected [wb] &&& wbCountMask).toNat ≤ (wb &&& wbCountMask).toNat := by
  simp only [Polled.engineServiceWbMonitor, if_true]
  split
  · simp
  · split
    · exact le_rfl
    · split
      · rename_i hlt
        rw [count_or_err]
        have hlt' := BitVec.lt_def.mp hlt
        have hle := count_toNat_le expected
        omega
      · exact le_rfl

/-! ## The engine and the counts of the device -/

/-- What holds between the routines. -/
structure Counted (p : Polled) (progress : Nat → Nat) : Prop where
  live : ∀ t ∈ p.engine.transferList,
    ∃ transfer, p.kern.transfers t = some transfer ∧ transfer.state ≠ .completed
  nodup : p.engine.transferList.Nodup
  fresh : ∀ t, p.kern.next ≤ t → p.kern.transfers t = none
  /-- a transfer that was taken off the list may still be the one that the engine runs -/
  running : p.engine.running = true → ∃ t transfer,
    p.started = some t ∧ p.kern.transfers t = some transfer ∧ progress t ≤ transfer.descNum ∧
      (p.wb &&& wbCountMask).toNat ≤ progress t ∧
      (t ∈ p.engine.transferList → p.engine.descDequeued = 0)
  stopped : p.engine.running = false → p.wb = 0
  attributed : ∀ t transfer, p.kern.transfers t = some transfer → transfer.state = .completed →
    progress t = transfer.descNum

/-- A routine leaves the start of the engine alone, or makes a new one. -/
def KeepsStart (p p' : Polled) : Prop :=
  p'.starts = p.starts ∧ p'.started = p.started ∧
      (p'.engine.running = true → p.engine.running = true) ∨
    p'.starts = p.starts + 1

namespace Counted

open Polled

variable {p p' : Polled} {progress : Nat → Nat}

/-- The engine is started with the first transfer of the list. -/
theorem engineStart (h : Counted p progress) (hrun : p.engine.running = false)
    (hlist : p.engine.transferList ≠ []) :
    Counted p.engineStart.1 (Threads.countFrom p p.engineStart.1 progress) ∧
      p.engineStart.2 = .ok 0 ∧ p.engineStart.1.starts = p.starts + 1 := by
  obtain ⟨t, rest, hcons⟩ := List.exists_cons_of_ne_nil hlist
  obtain ⟨transfer, ht, hstate⟩ := h.live t (hcons ▸ List.mem_cons_self)
  have hcount : ∀ q : Polled, q.starts = p.starts + 1 → q.started = some t →
      Threads.countFrom p q progress = Function.update progress t 0 := by
    intro q hstarts hstarted
    unfold Threads.countFrom
    rw [if_neg (by omega), hstarted]
  unfold Polled.engineStart
  rw [if_neg (by rw [hrun]; decide), hcons]
  dsimp only
  rw [ht]
  refine ⟨?_, rfl, rfl⟩
  rw [hcount _ rfl rfl]
  have hwb := h.stopped hrun
  refine ⟨?_, ?_, h.fresh, fun _ => ⟨t, transfer, rfl, ht, ?_, ?_, fun _ => rfl⟩, ?_, ?_⟩
  · exact h.live
  · exact h.nodup
  · rw [Function.update_self]
    exact Nat.zero_le _
  · show (p.wb &&& wbCountMask).toNat ≤ _
    rw [hwb]
    simp
  · intro hcontra
    cases hcontra
  · intro x transfer' hx hcompleted
    have hne : x ≠ t := by
      rintro rfl
      have hx' : p.kern.transfers x = some transfer' := hx
      rw [ht, Option.some.injEq] at hx'
      exact hstate (hx' ▸ hcompleted)
    rw [Function.update_of_ne hne]
    exact h.attributed x transfer' hx hcompleted

/-- Only the writeback and registers change. -/
theorem of_same (h : Counted p progress) (hlist : p'.engine.transferList = p.engine.transferList)
    (hkern : p'.kern = p.kern) (hstarted : p'.started = p.started)
    (hrun : p'.engine.running = p.engine.running)
    (hdeq : p'.engine.descDequeued = p.engine.descDequeued)
    (hwb : (p'.wb &&& wbCountMask).toNat ≤ (p.wb &&& wbCountMask).toNat)
    (hstop : p.engine.running = false → p'.wb = 0) : Counted p' progress := by
  refine ⟨?_, ?_, ?_, fun hrun' => ?_, fun hrun' => hstop (hrun ▸ hrun'), ?_⟩
  · rw [hlist, hkern]
    exact h.live
  · rw [hlist]
    exact h.nodup
  · rw [hkern]
    exact h.fresh
  · obtain ⟨t, transfer, ht, htransfer, hle, hcount, hmem⟩ := h.running (hrun ▸ hrun')
    rw [hkern, hlist, hstarted, hdeq]
    exact ⟨t, transfer, ht, htransfer, hle, hwb.trans hcount, hmem⟩
  · rw [hkern]
    exact h.attributed

/-- After the transfers were dequeued, the engine is restarted if it is idle. -/
theorem resume (h : Counted p progress) :
    Counted p.engineServiceResume.1 (Threads.countFrom p p.engineServiceResume.1 progress) ∧
      (∃ rc, p.engineServiceResume.2 = .ok rc) ∧ KeepsStart p p.engineServiceResume.1 := by
  unfold engineServiceResume
  split
  · refine ⟨?_, ⟨0, rfl⟩, .inl ⟨rfl, rfl, id⟩⟩
    rw [Threads.countFrom_of_eq (by rfl)]
    exact h
  · rename_i hrun
    split
    · refine ⟨?_, ⟨0, rfl⟩, .inl ⟨rfl, rfl, id⟩⟩
      rw [Threads.countFrom_of_eq (by rfl)]
      exact h.of_same rfl rfl rfl rfl rfl le_rfl h.stopped
    · split
      · refine ⟨?_, ⟨0, rfl⟩, .inl ⟨rfl, rfl, id⟩⟩
        rw [Threads.countFrom_of_eq (by rfl)]
        exact h
      · rename_i hlist
        obtain ⟨hstart, hok, hstarts⟩ := h.engineStart (by simpa using hrun) hlist
        exact ⟨hstart, ⟨0, hok⟩, .inr hstarts⟩

/-- The transfer that the engine was started with is the first one.  It leaves the list, or it stays
there as a failed one. -/
theorem retire (h : Counted p progress) {t : Nat} {rest : List Nat} {transfer : XdmaTransfer}
    (hlist : p.engine.transferList = t :: rest) (ht : p.kern.transfers t = some transfer)
    (hstarted : p.started = some t) (state : TransferState)
    (hstate : state = .completed → progress t = transfer.descNum)
    (hkern : p'.kern = p.kern.setState t state) (hstarted' : p'.started = p.started)
    (hrun : p'.engine.running = true → p.engine.running = true)
    (hlist' : p'.engine.transferList = rest ∨
      p'.engine.transferList = t :: rest ∧ state ≠ .completed ∧
        p'.engine.descDequeued = p.engine.descDequeued)
    (hwb : p'.wb = 0) : Counted p' progress := by
  have hnodup := h.nodup
  rw [hlist, List.nodup_cons] at hnodup
  refine ⟨?_, ?_, ?_, ?_, fun _ => hwb, ?_⟩
  · intro x hx
    by_cases hxt : x = t
    · subst hxt
      rcases hlist' with hrest | ⟨-, hfailed, -⟩
      · exact absurd (hrest ▸ hx) hnodup.1
      · rw [hkern]
        exact ⟨_, Kernel.setState_self ht state, hfailed⟩
    · rw [hkern, Kernel.setState_of_ne hxt]
      refine h.live x ?_
      rw [hlist]
      rcases hlist' with hrest | ⟨hall, -⟩
      · exact List.mem_cons_of_mem t (hrest ▸ hx)
      · exact hall ▸ hx
  · rcases hlist' with hrest | ⟨hall, -⟩
    · rw [hrest]
      exact hnodup.2
    · rw [hall, List.nodup_cons]
      exact hnodup
  · intro x hx
    rw [hkern] at hx ⊢
    exact Kernel.setState_none (h.fresh x hx) state
  · intro hrun'
    obtain ⟨t', transfer', ht', htransfer', hle, -, hdeq⟩ := h.running (hrun hrun')
    rw [hstarted, Option.some.injEq] at ht'
    subst ht'
    rw [ht, Option.some.injEq] at htransfer'
    subst htransfer'
    rw [hstarted', hkern, hwb]
    refine ⟨t, _, hstarted, Kernel.setState_self ht state, hle, by simp, fun hmem => ?_⟩
    rcases hlist' with hrest | ⟨-, -, hsame⟩
    · exact absurd (hrest ▸ hmem) hnodup.1
    · rw [hsame]
      exact hdeq (hlist ▸ List.mem_cons_self)
  · intro x transfer' hx hcompleted
    rw [hkern] at hx
    by_cases hxt : x = t
    · subst hxt
      rw [Kernel.setState_self ht, Option.some.injEq] at hx
      subst hx
      exact hstate hcompleted
    · rw [Kernel.setState_of_ne hxt] at hx
      exact h.attributed x transfer' hx hcompleted

theorem serviceStop_kept (p : Polled) (wb : Word) (hw : ServiceHw) :
    (p.serviceStop wb hw).started = p.started ∧
      (p.serviceStop wb hw).engine.descDequeued = p.engine.descDequeued ∧
      ((p.serviceStop wb hw).engine.running = true → p.engine.running = true) := by
  unfold serviceStop
  dsimp only
  split
  · exact ⟨rfl, rfl, fun hrun => nomatch hrun⟩
  · exact ⟨rfl, rfl, id⟩

/-- The first transfer is marked, and the writeback cleared.  Here `q` is the engine after it was
stopped. -/
theorem finalTransfer (h : Counted p progress) {q : Polled} {t : Nat} {rest : List Nat}
    {transfer : XdmaTransfer} (hlist : p.engine.transferList = t :: rest)
    (ht : p.kern.transfers t = some transfer) (hstarted : p.started = some t) {n : Nat}
    (hn : n ≤ progress t) (hle : progress t ≤ transfer.descNum)
    (hqlist : q.engine.transferList = p.engine.transferList) (hqkern : q.kern = p.kern)
    (hqstarted : q.started = p.started)
    (hqdeq : q.engine.descDequeued = p.engine.descDequeued)
    (hqrun : q.engine.running = true → p.engine.running = true) :
    Counted { (q.engineServiceFinalTransfer n).1 with wb := 0 } progress ∧
      (q.engineServiceFinalTransfer n).2 = .ok 0 ∧
      (q.engineServiceFinalTransfer n).1.started = q.started ∧
      ((q.engineServiceFinalTransfer n).1.engine.running = true → p.engine.running = true) := by
  have hqt : q.kern.transfers t = some transfer := by rw [hqkern, ht]
  unfold engineServiceFinalTransfer
  rw [hqlist, hlist]
  dsimp only
  rw [hqt]
  dsimp only
  split
  · refine ⟨?_, rfl, rfl, hqrun⟩
    refine h.retire hlist ht hstarted .failed (fun hcontra => nomatch hcontra) ?_ hqstarted hqrun
      (.inr ⟨hqlist.trans hlist, by decide, hqdeq⟩) rfl
    show q.kern.setState t .failed = _
    rw [hqkern]
  · refine ⟨?_, rfl, rfl, hqrun⟩
    refine h.retire hlist ht hstarted (if n < transfer.descNum then .failed else .completed) ?_ ?_
      hqstarted hqrun (.inl rfl) rfl
    · intro hcompleted
      split at hcompleted
      · cases hcompleted
      · omega
    · show q.kern.setState t _ = _
      rw [hqkern]

theorem service_stopped (h : Counted p progress) (hrun : p.engine.running = false) (wb : Word)
    (hw : ServiceHw) :
    Counted (p.engineService wb hw).1 (Threads.countFrom p (p.engineService wb hw).1 progress) ∧
      KeepsStart p (p.engineService wb hw).1 := by
  unfold engineService
  rw [if_pos hrun]
  dsimp only
  split
  · refine ⟨?_, .inl ⟨rfl, rfl, id⟩⟩
    rw [Threads.countFrom_of_eq (by rfl)]
    exact h.of_same rfl rfl rfl rfl rfl le_rfl h.stopped
  · refine ⟨?_, .inl ⟨rfl, rfl, id⟩⟩
    rw [Threads.countFrom_of_eq (by rfl)]
    exact h

/-- A service for a count that the device has reached. -/
theorem service (h : Counted p progress) (hrun : p.engine.running = true)
    (hhead : p.engine.transferList.head? = p.started) (wb : Word) (hw : ServiceHw)
    (hcount : ∀ t, p.started = some t → (serviceCount wb hw).toNat ≤ progress t) :
    Counted (p.engineService wb hw).1 (Threads.countFrom p (p.engineService wb hw).1 progress) ∧
      KeepsStart p (p.engineService wb hw).1 := by
  obtain ⟨t, transfer, hstarted, ht, hle, -, hdeq⟩ := h.running hrun
  rw [hstarted] at hhead
  obtain ⟨rest, hlist⟩ := List.head?_eq_some_iff.mp hhead
  obtain ⟨hqlist, hqkern, hqstarts, -⟩ := serviceStop_same p wb hw
  obtain ⟨hqstarted, hqdeq, hqrun⟩ := serviceStop_kept p wb hw
  have hn : (p.serviceStop wb hw).serviceCompleted wb hw = (serviceCount wb hw).toNat := by
    unfold serviceCompleted
    rw [hqdeq, hdeq (hlist ▸ List.mem_cons_self)]
    simp
  have hdequeue : (p.serviceStop wb hw).serviceDequeue ((p.serviceStop wb hw).serviceCompleted wb hw) =
      (p.serviceStop wb hw).engineServiceFinalTransfer (serviceCount wb hw).toNat := by
    have hqt : (p.serviceStop wb hw).kern.transfers t = some transfer := by rw [hqkern, ht]
    refine serviceDequeue_of_loop (by rw [hqlist, hlist]; exact List.cons_ne_nil t rest) ?_
    rw [hqlist, hlist, hn]
    exact transferList_stays hqt ((hcount t hstarted).trans hle)
  obtain ⟨hfinal, hok, hfstarted, hfrun⟩ := h.finalTransfer hlist ht hstarted (hcount t hstarted) hle
    hqlist hqkern hqstarted hqdeq hqrun
  have hfstarts := (finalTransfer_starts (p.serviceStop wb hw) (serviceCount wb hw).toNat).trans hqstarts
  obtain ⟨hcounted, -, hkeeps⟩ := hfinal.resume
  rcases engineService_cases hrun wb hw with ⟨e, herr, -⟩ | ⟨rc, -, heq⟩
  · rw [hdequeue, hok] at herr
    cases herr
  · rw [heq, hdequeue]
    refine ⟨?_, ?_⟩
    · rw [Threads.countFrom_congr (by exact hfstarts)] at hcounted
      exact hcounted
    · rcases hkeeps with ⟨hs, hst, hr⟩ | hs
      · exact .inl ⟨hs.trans hfstarts, hst.trans (hfstarted.trans hqstarted), fun hrun' => hfrun (hr hrun')⟩
      · exact .inr (hs.trans (congrArg (· + 1) hfstarts))

/-- A new transfer appears, and may join the list. -/
theorem add (h : Counted p progress) {k : Kernel} {t : Nat} {transfer : XdmaTransfer}
    (hold : p.kern.next ≤ t) (hnew : t < k.next)
    (hk : k.transfers = Function.update p.kern.transfers t (some transfer))
    (hstate : transfer.state ≠ .completed) (hkern : p'.kern = k) (hstarted : p'.started = p.started)
    (hwb : p'.wb = p.wb) (hrun : p'.engine.running = p.engine.running)
    (hdeq : p'.engine.descDequeued = p.engine.descDequeued)
    (hlist : p'.engine.transferList = p.engine.transferList ∨
      p'.engine.transferList = p.engine.transferList ++ [t]) : Counted p' progress := by
  have hnone := h.fresh t hold
  have hdead : t ∉ p.engine.transferList := by
    intro hmem
    obtain ⟨transfer', ht, -⟩ := h.live t hmem
    rw [hnone] at ht
    cases ht
  have hother : ∀ x, x ≠ t → k.transfers x = p.kern.transfers x := by
    intro x hx
    rw [hk, Function.update_of_ne hx]
  have hself : k.transfers t = some transfer := by rw [hk, Function.update_self]
  have hmem : ∀ x, x ≠ t → x ∈ p'.engine.transferList → x ∈ p.engine.transferList := by
    intro x hne hx
    rcases hlist with hsame | happ
    · exact hsame ▸ hx
    · rw [happ, List.mem_append, List.mem_singleton] at hx
      exact hx.resolve_right hne
  refine ⟨fun x hx => ?_, ?_, fun x hx => ?_, fun hrun' => ?_, fun hrun' => ?_, ?_⟩
  · rw [hkern]
    by_cases hne : x = t
    · rw [hne]
      exact ⟨transfer, hself, hstate⟩
    · rw [hother x hne]
      exact h.live x (hmem x hne hx)
  · rcases hlist with hsame | happ
    · rw [hsame]
      exact h.nodup
    · rw [happ]
      exact List.nodup_append.mpr ⟨h.nodup, List.nodup_singleton t,
        fun a ha b hb hab => hdead (List.mem_singleton.mp hb ▸ hab ▸ ha)⟩
  · rw [hkern] at hx ⊢
    rw [hother x (by omega)]
    exact h.fresh x (by omega)
  · obtain ⟨x, transfer', hx, hxt, hle, hcount, hdeq'⟩ := h.running (hrun ▸ hrun')
    have hne : x ≠ t := by
      rintro rfl
      rw [hnone] at hxt
      cases hxt
    rw [hkern, hwb, hstarted, hdeq]
    exact ⟨x, transfer', hx, (hother x hne).trans hxt, hle, hcount, fun hx' => hdeq' (hmem x hne hx')⟩
  · rw [hwb]
    exact h.stopped (hrun ▸ hrun')
  · intro x transfer' hx hcompleted
    rw [hkern] at hx
    by_cases hne : x = t
    · subst hne
      rw [hself, Option.some.injEq] at hx
      exact absurd (hx ▸ hcompleted) hstate
    · exact h.attributed x transfer' (hother x hne ▸ hx) hcompleted

theorem queue (h : Counted p progress) {k : Kernel} {t : Nat} {transfer : XdmaTransfer}
    (hold : p.kern.next ≤ t) (hnew : t < k.next)
    (hk : k.transfers = Function.update p.kern.transfers t (some transfer))
    (hstate : transfer.state = .new) :
    Counted ((p.setKern k).transferQueue t).1
        (Threads.countFrom p ((p.setKern k).transferQueue t).1 progress) ∧
      KeepsStart p ((p.setKern k).transferQueue t).1 := by
  have ht : (p.setKern k).kern.transfers t = some transfer := by
    show k.transfers t = some transfer
    rw [hk, Function.update_self]
  have hcreated : Counted (p.setKern k) (Threads.countFrom p (p.setKern k) progress) := by
    rw [Threads.countFrom_of_eq (by rfl)]
    exact h.add hold hnew hk (by rw [hstate]; decide) rfl rfl rfl rfl rfl (.inl rfl)
  unfold transferQueue
  rw [ht]
  dsimp only
  split
  · exact ⟨hcreated, .inl ⟨rfl, rfl, id⟩⟩
  · split
    · exact ⟨hcreated, .inl ⟨rfl, rfl, id⟩⟩
    · have hk' : (k.setState t .submitted).transfers =
          Function.update p.kern.transfers t (some { transfer with state := .submitted }) := by
        unfold Kernel.setState
        dsimp only
        rw [hk, Function.update_self, Function.update_idem]
        rfl
      have hqueued : Counted (((p.setKern k).setKern (k.setState t .submitted)).setEngine
          { p.engine with transferList := p.engine.transferList ++ [t] }) progress :=
        h.add (k := k.setState t .submitted) hold hnew hk' (fun hcontra => nomatch hcontra) rfl rfl rfl
          rfl rfl (.inr rfl)
      split
      · refine ⟨?_, .inl ⟨rfl, rfl, id⟩⟩
        rw [Threads.countFrom_of_eq (by rfl)]
        exact hqueued
      · rename_i hrun
        have hne : p.engine.transferList ++ [t] ≠ [] := List.concat_ne_nil t _
        obtain ⟨hstart, -, hstarts⟩ := hqueued.engineStart (Bool.eq_false_of_not_eq_true hrun) hne
        refine ⟨?_, .inr hstarts⟩
        rw [Threads.countFrom_congr (by rfl)] at hstart
        exact hstart

/-- The device completes a descriptor, and shows at most its count. -/
theorem complete (h : Counted p progress) (hrun : p.engine.running = true) {t : Nat}
    {transfer : XdmaTransfer} (hstarted : p.started = some t)
    (ht : p.kern.transfers t = some transfer) (hlt : progress t < transfer.descNum) {wb : Word}
    (hwb : (wb &&& wbCountMask).toNat ≤ progress t + 1) :
    Counted { p with wb := wb } (Function.update progress t (progress t + 1)) := by
  refine ⟨h.live, h.nodup, h.fresh, fun _ => ⟨t, transfer, hstarted, ht, ?_, ?_, ?_⟩, ?_, ?_⟩
  · rw [Function.update_self]
    exact hlt
  · rw [Function.update_self]
    exact hwb
  · obtain ⟨x, _, hx, -, -, -, hdeq⟩ := h.running hrun
    rw [hstarted, Option.some.injEq] at hx
    subst hx
    exact hdeq
  · intro hrun'
    exact absurd (hrun.symm.trans hrun') (by decide)
  · intro x transfer' hx hcompleted
    have hprogress := h.attributed x transfer' hx hcompleted
    have hne : x ≠ t := by
      rintro rfl
      have hx' : p.kern.transfers x = some transfer' := hx
      rw [ht, Option.some.injEq] at hx'
      subst hx'
      omega
    rw [Function.update_of_ne hne]
    exact hprogress

end Counted

namespace Threads

/-! ## Every interleaving -/

structure Inv (s : Threads) : Prop where
  counted : Counted s.polled s.progress
  /-- a value that was read since the last start is a count that the device has reached -/
  samples : ∀ thread t descWb epoch, s.phase thread = .sampled t descWb epoch →
    epoch ≤ s.polled.starts ∧
      (epoch = s.polled.starts → s.polled.engine.running = true → ∀ x, s.polled.started = some x →
        (descWb &&& wbCountMask).toNat ≤ s.progress x)

variable {s s' : Threads}

/-- A value that a thread holds after its own step was there before, or it comes from this step. -/
theorem sampled_update {phase : Nat → ThreadPhase} {phase' : ThreadPhase} {thread thread' t : Nat}
    {descWb : Word} {epoch : Nat}
    (h : Function.update phase thread phase' thread' = .sampled t descWb epoch) :
    phase thread' = .sampled t descWb epoch ∨ phase' = .sampled t descWb epoch := by
  by_cases hthread : thread' = thread
  · rw [hthread, Function.update_self] at h
    exact .inr h
  · rw [Function.update_of_ne hthread] at h
    exact .inl h

/-- The values that other threads hold stay within the count, or they become stale. -/
theorem Inv.samples_unlock (h : s.Inv) {p : Polled} (hkeeps : KeepsStart s.polled p)
    {thread t : Nat} {descWb : Word} {epoch : Nat} (hphase : s.phase thread = .sampled t descWb epoch) :
    epoch ≤ p.starts ∧
      (epoch = p.starts → p.engine.running = true → ∀ x, p.started = some x →
        (descWb &&& wbCountMask).toNat ≤ countFrom s.polled p s.progress x) := by
  obtain ⟨hle, hcount⟩ := h.samples thread t descWb epoch hphase
  rcases hkeeps with ⟨hstarts, hstarted, hrun⟩ | hstarts
  · rw [countFrom_of_eq hstarts, hstarts, hstarted]
    exact ⟨hle, fun hepoch hrun' => hcount hepoch (hrun hrun')⟩
  · exact ⟨by omega, fun hepoch => absurd hepoch (by omega)⟩

theorem Inv.unlock (h : s.Inv) {r : Polled × Except Crash Int} {thread : Nat} {next : Int → ThreadPhase}
    (hcounted : Counted r.1 (countFrom s.polled r.1 s.progress)) (hkeeps : KeepsStart s.polled r.1)
    (hnext : ∀ rc t descWb epoch, next rc ≠ .sampled t descWb epoch) : (s.unlock thread next r).Inv := by
  obtain ⟨p, e | rc⟩ := r
  · exact ⟨hcounted, fun _ _ _ _ hphase => h.samples_unlock hkeeps hphase⟩
  · refine ⟨hcounted, fun thread' t descWb epoch hphase => ?_⟩
    rcases sampled_update hphase with hphase | hphase
    · exact h.samples_unlock hkeeps hphase
    · exact absurd hphase (hnext rc t descWb epoch)

theorem Inv.queue (h : s.Inv) {thread : Nat} {transfer : XdmaTransfer}
    (hstep : s.queue thread transfer = some s') : s'.Inv := by
  unfold Threads.queue at hstep
  split at hstep
  · split at hstep
    · rename_i hstate
      simp only [Kernel.kzallocTransfer, if_true, Option.some.injEq] at hstep
      subst hstep
      obtain ⟨hcounted, hkeeps⟩ := h.counted.queue (k := (s.polled.kern.kzallocTransfer true transfer).1)
        le_rfl (Nat.lt_succ_self _) rfl hstate
      refine h.unlock hcounted hkeeps fun rc t descWb epoch hcontra => ?_
      split at hcontra <;> cases hcontra
    · cases hstep
  · cases hstep

/-- The value that is read is at most the count in the writeback. -/
theorem Inv.sample (h : s.Inv) {thread : Nat} {timedOut : Bool}
    (hstep : s.sample thread timedOut = some s') : s'.Inv := by
  unfold Threads.sample at hstep
  split at hstep
  · split at hstep
    · cases hstep
      exact ⟨h.counted, h.samples⟩
    · dsimp only at hstep
      split at hstep
      · cases hstep
        refine ⟨h.counted, fun thread' t descWb epoch hphase => ?_⟩
        rcases sampled_update hphase with hphase | hphase
        · exact h.samples thread' t descWb epoch hphase
        · cases hphase
      · split at hstep
        · cases hstep
          refine ⟨h.counted, fun thread' t descWb epoch hphase => ?_⟩
          rcases sampled_update hphase with hphase | hphase
          · exact h.samples thread' t descWb epoch hphase
          · cases hphase
            refine ⟨le_rfl, fun _ hrun x hx => ?_⟩
            obtain ⟨y, _, hy, -, -, hcount, -⟩ := h.counted.running hrun
            rw [hx, Option.some.injEq] at hy
            subst hy
            exact (wbMonitor_count_le _ _).trans hcount
        · cases hstep
  · cases hstep

/-- The count that a service goes by: the value that was read, or the register of the device. -/
theorem Inv.serviceCount_le (h : s.Inv) {thread t : Nat} {descWb : Word} {epoch : Nat}
    (hphase : s.phase thread = .sampled t descWb epoch) (hrun : s.polled.engine.running = true)
    (hepoch : epoch = s.polled.starts) (status : Word) {x : Nat} (hx : s.polled.started = some x) :
    (Polled.serviceCount descWb ⟨status, BitVec.ofNat 32 s.completedDescCount⟩).toNat ≤ s.progress x := by
  unfold Polled.serviceCount
  split
  · unfold completedDescCount
    rw [hx, BitVec.toNat_ofNat]
    exact Nat.mod_le _ _
  · exact (h.samples thread t descWb epoch hphase).2 hepoch hrun x hx

theorem Inv.service (h : s.Inv) {thread : Nat} {status : Word}
    (hok : s.servicesCurrent (.service thread status)) (hstep : s.service thread status = some s') :
    s'.Inv := by
  unfold Threads.service at hstep
  split at hstep
  · rename_i t descWb epoch hphase
    cases hstep
    have hcurrent : s.Current (.sampled t descWb epoch) := hphase ▸ hok
    cases hrun : s.polled.engine.running with
    | false =>
        obtain ⟨hcounted, hkeeps⟩ := h.counted.service_stopped hrun descWb
          ⟨status, BitVec.ofNat 32 s.completedDescCount⟩
        exact h.unlock hcounted hkeeps fun _ _ _ _ hcontra => nomatch hcontra
    | true =>
        obtain ⟨hepoch, hhead⟩ := hcurrent hrun
        obtain ⟨hcounted, hkeeps⟩ := h.counted.service hrun hhead descWb
          ⟨status, BitVec.ofNat 32 s.completedDescCount⟩
          (fun x hx => h.serviceCount_le hphase hrun hepoch status hx)
        exact h.unlock hcounted hkeeps fun _ _ _ _ hcontra => nomatch hcontra
  · cases hstep

/-- The count of the device grows, and the writeback follows it. -/
theorem Inv.complete (h : s.Inv) (hstep : s.complete = some s') : s'.Inv := by
  unfold Threads.complete at hstep
  split at hstep
  · rename_i hrun
    split at hstep
    · cases hstep
    · rename_i t hstarted
      split at hstep
      · cases hstep
      · rename_i transfer ht
        split at hstep
        · rename_i hlt
          cases hstep
          refine ⟨h.counted.complete hrun hstarted ht hlt ?_, fun thread t' descWb epoch hphase => ?_⟩
          · refine (count_toNat_le _).trans ((count_toNat_le _).trans ?_)
            rw [BitVec.toNat_ofNat]
            exact Nat.mod_le _ _
          · obtain ⟨hle, hcount⟩ := h.samples thread t' descWb epoch hphase
            refine ⟨hle, fun hepoch hrun' x hx => (hcount hepoch hrun' x hx).trans ?_⟩
            show s.progress x ≤ Function.update s.progress t (s.progress t + 1) x
            by_cases hxt : x = t
            · subst hxt
              rw [Function.update_self]
              omega
            · rw [Function.update_of_ne hxt]
        · cases hstep
  · cases hstep

theorem Inv.fault (h : s.Inv) (hstep : s.fault = some s') : s'.Inv := by
  unfold Threads.fault at hstep
  split at hstep
  · rename_i hrun
    cases hstep
    refine ⟨h.counted.of_same rfl rfl rfl rfl rfl ?_ ?_, h.samples⟩
    · show ((s.polled.wb ||| wbErrMask) &&& wbCountMask).toNat ≤ _
      rw [count_or_err]
    · intro hstop
      exact absurd (hrun.symm.trans hstop) (by decide)
  · cases hstep

theorem Inv.step (h : s.Inv) {a : ThreadAct} (hok : s.servicesCurrent a) (hstep : s.step a = some s') :
    s'.Inv := by
  unfold Threads.step at hstep
  split at hstep
  · cases hstep
  · cases a with
    | queue thread transfer => exact h.queue hstep
    | sample thread timedOut => exact h.sample hstep
    | service thread status => exact h.service hok hstep
    | complete => exact h.complete hstep
    | fault => exact h.fault hstep

theorem inv_start (streaming dirToDev nonIncrAddr : Bool) :
    (start (.created streaming dirToDev nonIncrAddr)).Inv :=
  ⟨⟨fun _ h => (nomatch h), List.nodup_nil, fun _ _ => rfl, fun h => (nomatch h), fun _ => rfl,
    fun _ _ h => (nomatch h)⟩, fun _ _ _ _ h => (nomatch h)⟩

/-- Polling and servicing without a step of another thread in between is `transfer_monitor`. -/
theorem transferMonitor_of_steps {s₁ s₂ : Threads} {thread t : Nat} {timedOut : Bool} {status : Word}
    (hphase : s.phase thread = .queued t) (hsample : s.sample thread timedOut = some s₁)
    (hservice : s₁.service thread status = some s₂) :
    s₂.polled = (s.polled.transferMonitor t [s.polled.wb]
      ⟨status, BitVec.ofNat 32 s.completedDescCount⟩).1 := by
  unfold Threads.sample at hsample
  rw [hphase] at hsample
  dsimp only at hsample
  cases ht : s.polled.kern.transfers t with
  | none =>
      simp only [ht, Option.some.injEq] at hsample
      subst hsample
      simp [Threads.service, hphase] at hservice
  | some transfer =>
      simp only [ht] at hsample
      split at hsample
      · cases hsample
        simp [Threads.service] at hservice
      · rename_i hmask
        split at hsample
        · cases hsample
          rcases DataRun.transferMonitor_cases ht [s.polled.wb]
            ⟨status, BitVec.ofNat 32 s.completedDescCount⟩ with ⟨hne, -⟩ | ⟨-, heq⟩
          · exact absurd hne hmask
          · simp only [Threads.service, Function.update_self, Option.some.injEq] at hservice
            subst hservice
            rw [heq]
            unfold Threads.unlock
            split <;> rename_i hr <;> exact congrArg Prod.fst hr.symm
        · cases hsample

/-- For every number of threads and every order of their steps and of those of the device, a
transfer is completed only when the device has completed all its descriptors, as long as a
running engine is serviced with current values only. -/
theorem polled_completion_attributed (streaming dirToDev nonIncrAddr : Bool) (s : Threads)
    (hs : Machine.Reach Threads.step servicesCurrent
      (start (.created streaming dirToDev nonIncrAddr)) s) : s.Attributed := by
  have hinv : s.Inv := hs.invariant (P := Inv) (inv_start streaming dirToDev nonIncrAddr)
    (fun _ _ _ _ hP hok hstep => hP.step hok hstep)
  exact hinv.counted.attributed

/-- A transfer of `n` descriptors before it is queued. -/
def newTransfer (n : Nat) : XdmaTransfer where
  descVirt := 0
  descBus := 0
  descAdjacent := n
  descNum := n
  dirToDev := false
  sglNents := n
  cyclic := false
  state := .new
  wz := false

/-- Two threads queue transfers of two and three descriptors, and each polls until its own
transfer is done. -/
theorem polled_completion_attributed_in_turn :
    ∃ s, Machine.Reach Threads.step servicesCurrent (start .idle) s ∧
      (s.polled.kern.transfers 0).map XdmaTransfer.state = some .completed ∧
      (s.polled.kern.transfers 1).map XdmaTransfer.state = some .completed ∧
      s.progress 0 = 2 ∧ s.progress 1 = 3 ∧ s.Attributed := by
  obtain ⟨s, hs, hp⟩ := Machine.exists_reach_of_execOk Threads.step servicesCurrent (start .idle)
    [.queue 0 (newTransfer 2), .queue 1 (newTransfer 3), .complete, .complete, .sample 0 false,
      .service 0 0, .complete, .complete, .complete, .sample 1 false, .service 1 0]
    (fun s => decide ((s.polled.kern.transfers 0).map XdmaTransfer.state = some .completed ∧
      (s.polled.kern.transfers 1).map XdmaTransfer.state = some .completed ∧
      s.progress 0 = 2 ∧ s.progress 1 = 3)) (by decide +kernel)
  obtain ⟨hfirst, hsecond, hprogress, hprogress'⟩ := of_decide_eq_true hp
  exact ⟨s, hs, hfirst, hsecond, hprogress, hprogress',
    polled_completion_attributed false false false s hs⟩

/-- Two transfers of one descriptor each.  Both threads read the count of the first one, the first
thread services the engine and starts it with the second transfer, and the second thread then
takes the old count for its own transfer. -/
theorem polled_completes_unstarted_transfer :
    ∃ s, Machine.Reach Threads.step (fun _ _ => True) (start .idle) s ∧ s.crashed = false ∧
      (s.polled.kern.transfers 1).map (fun transfer => (transfer.state, transfer.descNum)) =
        some (.completed, 1) ∧ s.progress 1 = 0 ∧ ¬s.Attributed := by
  obtain ⟨s, hs, hp⟩ := Machine.exists_reach_of_execOk Threads.step (fun _ _ => True) (start .idle)
    [.queue 0 (newTransfer 1), .queue 1 (newTransfer 1), .complete, .sample 0 false, .sample 1 false,
      .service 0 0, .service 1 0]
    (fun s => decide (s.crashed = false ∧
      (s.polled.kern.transfers 1).map (fun transfer => (transfer.state, transfer.descNum)) =
        some (.completed, 1) ∧ s.progress 1 = 0)) (by decide +kernel)
  obtain ⟨hcrashed, htransfer, hprogress⟩ := of_decide_eq_true hp
  refine ⟨s, hs, hcrashed, htransfer, hprogress, fun hattr => ?_⟩
  obtain ⟨transfer, ht, hpair⟩ := Option.map_eq_some_iff.mp htransfer
  obtain ⟨hstate, hnum⟩ := Prod.mk.inj hpair
  have hall := hattr 1 transfer ht hstate
  rw [hprogress, hnum] at hall
  cases hall

end Threads
end WzXdma
