import WzXdma.Accounting
import WzXdma.PolledThreads

/-!
# The dequeued descriptors and the count of the device

From one start of the engine to the next the device counts the descriptors it has completed, and
`desc_dequeued` those of the transfers that were taken off the queue.  Every service subtracts the
second from the first in 32 bits.

A service that sees no count and a busy engine lets the engine run on.  It nevertheless takes off
the transfer in which the count ends, with all its descriptors.

`count` and `queued` are not in the source: the last count of the device, and the number of
descriptors that were on the queue at the start or were queued since.
-/

namespace WzXdma

open Lib

structure CountRun where
  polled : Polled
  count : Nat
  queued : Nat

inductive CountAct
  /-- `transfer_queue` -/
  | queue (transfer : XdmaTransfer)
  /-- `engine_service_poll` with the number of descriptors it waits for and the values it reads -/
  | service (expected : Word) (reads : List Word) (hw : ServiceHw)

namespace CountRun

def start (p : Polled) : CountRun where
  polled := p
  count := 0
  queued := 0

/-- The run goes on with `count` and `queued`, unless the engine was started again. -/
def since (r : CountRun) (p : Polled) (count queued : Nat) : CountRun :=
  if p.starts = r.polled.starts then ⟨p, count, queued⟩
  else ⟨p, 0, p.kern.descSum p.engine.transferList⟩

def queue (r : CountRun) (transfer : XdmaTransfer) : Option CountRun :=
  match r.polled.kern.kzallocTransfer true transfer with
  | (_, none) => none
  | (k, some t) =>
      match (r.polled.setKern k).transferQueue t with
      | (_, .error _) => none
      | (p, .ok rc) =>
          some (r.since p r.count (if rc = 0 then r.queued + transfer.descNum else r.queued))

def service (r : CountRun) (expected : Word) (reads : List Word) (hw : ServiceHw) : Option CountRun :=
  match r.polled.engineServicePoll expected reads hw with
  | (_, .error _) => none
  | (p, .ok _) => some (r.since p hw.completedDescCount.toNat r.queued)

def step (r : CountRun) : CountAct → Option CountRun
  | .queue transfer => r.queue transfer
  | .service expected reads hw => r.service expected reads hw

/-- The counts of the device do not decrease, and it counts only descriptors that were queued.  A
value that is read from the writeback is one of these counts, or still cleared. -/
def counts (r : CountRun) : CountAct → Prop
  | .queue _ => True
  | .service _ reads hw => r.polled.engine.running = true →
      (∀ w ∈ reads, w &&& wbCountMask = 0 ∨
        r.count ≤ (w &&& wbCountMask).toNat ∧
        (w &&& wbCountMask).toNat ≤ hw.completedDescCount.toNat) ∧
      r.count ≤ hw.completedDescCount.toNat ∧ hw.completedDescCount.toNat ≤ r.queued

-- the values are looked up in the list, there are too many words to try them all
instance (r : CountRun) (a : CountAct) : Decidable (r.counts a) :=
  match a with
  | .queue _ => .isTrue trivial
  | .service _ reads _ =>
      @instDecidableForall _ _ _ (@instDecidableAnd _ _ (List.decidableBAll _ reads) inferInstance)

/-- `desc_count -= engine->desc_dequeued` goes below zero. -/
def wraps (r : CountRun) : CountAct → Prop
  | .queue _ => False
  | .service expected reads hw =>
      expected &&& wbCountMask = expected ∧ r.polled.engine.running = true ∧
      (Polled.serviceCount (Polled.engineServiceWbMonitor expected reads) hw).toNat <
        r.polled.engine.descDequeued

instance (r : CountRun) (a : CountAct) : Decidable (r.wraps a) :=
  match a with
  | .queue _ => .isFalse id
  | .service expected reads hw => inferInstanceAs (Decidable
      (expected &&& wbCountMask = expected ∧ r.polled.engine.running = true ∧
      (Polled.serviceCount (Polled.engineServiceWbMonitor expected reads) hw).toNat <
        r.polled.engine.descDequeued))

end CountRun

/-! ## The condition -/

/-- A count of `n` descriptors ends inside a transfer of the queue, before its last descriptor. -/
def Kernel.endsInside (k : Kernel) : List Nat → Nat → Bool
  | [], _ => false
  | t :: rest, n =>
      match k.transfers t with
      | none => false
      | some transfer =>
          if transfer.cyclic = false ∧ transfer.descNum < n then
            k.endsInside rest (n - transfer.descNum)
          else decide (n < transfer.descNum)

/-- The time is over at a count above the expected one. -/
def TimesOutAbove (expected : Word) (reads : List Word) : Prop :=
  (∀ w ∈ reads, w &&& wbErrMask = 0 ∧ w ≠ expected) ∧ expected ≠ 0 ∧
    (reads.getLast?.any fun w => decide (expected < w &&& wbCountMask)) = true

instance (expected : Word) (reads : List Word) : Decidable (TimesOutAbove expected reads) :=
  @instDecidableAnd _ _ (List.decidableBAll _ reads) inferInstance

namespace CountRun

/-- For a service of a running engine: a poll that times out above the count it expects is not one
for fewer descriptors than were dequeued, and a service that sees no count, a busy engine and no
error does not find the count of the device inside a transfer. -/
def dequeuesWhole (r : CountRun) : CountAct → Prop
  | .queue _ => True
  | .service expected reads hw =>
      expected &&& wbCountMask = expected → r.polled.engine.running = true →
      (TimesOutAbove expected reads → r.polled.engine.descDequeued ≤ expected.toNat) ∧
      (Polled.engineServiceWbMonitor expected reads &&& wbCountMask = 0 →
        hw.status &&& xdmaStatBusy ≠ 0 → hw.status &&& errFlags = 0 →
        r.polled.kern.endsInside r.polled.engine.transferList
          (hw.completedDescCount.toNat - r.polled.engine.descDequeued) = false)

instance (r : CountRun) (a : CountAct) : Decidable (r.dequeuesWhole a) :=
  match a with
  | .queue _ => .isTrue trivial
  | .service expected reads hw => inferInstanceAs (Decidable
      (expected &&& wbCountMask = expected → r.polled.engine.running = true →
      (TimesOutAbove expected reads → r.polled.engine.descDequeued ≤ expected.toNat) ∧
      (Polled.engineServiceWbMonitor expected reads &&& wbCountMask = 0 →
        hw.status &&& xdmaStatBusy ≠ 0 → hw.status &&& errFlags = 0 →
        r.polled.kern.endsInside r.polled.engine.transferList
          (hw.completedDescCount.toNat - r.polled.engine.descDequeued) = false)))

end CountRun

/-! ## What the polling ends with -/

theorem timesOutAbove_cons {expected w : Word} {rest : List Word} (hrest : rest ≠ [])
    (hw : w &&& wbErrMask = 0 ∧ w ≠ expected) :
    TimesOutAbove expected (w :: rest) ↔ TimesOutAbove expected rest := by
  unfold TimesOutAbove
  rw [List.getLast?_cons_of_ne_nil hrest, List.forall_mem_cons]
  exact ⟨fun h => ⟨h.1.2, h.2⟩, fun h => ⟨⟨hw, h.1⟩, h.2⟩⟩

theorem wbMonitor_of_timesOut {expected : Word} {reads : List Word} (h : TimesOutAbove expected reads) :
    Polled.engineServiceWbMonitor expected reads = expected ||| wbErrMask := by
  induction reads with
  | nil => exact absurd h.2.2 Bool.false_ne_true
  | cons w rest ih =>
      obtain ⟨hall, hzero, hlast⟩ := id h
      obtain ⟨herr, hne⟩ := hall w List.mem_cons_self
      rw [Polled.engineServiceWbMonitor, if_neg hzero, if_neg (not_or.mpr ⟨not_not_intro herr, hne⟩)]
      by_cases hrest : rest = []
      · subst hrest
        have hlt : expected < w &&& wbCountMask := of_decide_eq_true hlast
        rw [if_pos rfl, if_pos hlt]
      · rw [if_neg hrest]
        exact ih ((timesOutAbove_cons hrest ⟨herr, hne⟩).mp h)

theorem wbMonitor_cases (expected : Word) (reads : List Word) :
    Polled.engineServiceWbMonitor expected reads = 0 ∨
      Polled.engineServiceWbMonitor expected reads ∈ reads ∨ TimesOutAbove expected reads := by
  induction reads with
  | nil => exact .inl rfl
  | cons w rest ih =>
      rw [Polled.engineServiceWbMonitor]
      split
      · exact .inl rfl
      · rename_i hzero
        split
        · exact .inr (.inl List.mem_cons_self)
        · rename_i hgo
          obtain ⟨herr, hne⟩ := not_or.mp hgo
          split
          · rename_i hrest
            subst hrest
            split
            · rename_i hlt
              refine .inr (.inr ⟨?_, hzero, decide_eq_true hlt⟩)
              rw [List.forall_mem_singleton]
              exact ⟨not_not.mp herr, hne⟩
            · exact .inr (.inl List.mem_cons_self)
          · rename_i hrest
            rcases ih with h | h | h
            · exact .inl h
            · exact .inr (.inl (List.mem_cons_of_mem w h))
            · exact .inr (.inr ((timesOutAbove_cons hrest ⟨not_not.mp herr, hne⟩).mpr h))

/-! ## What a service does to the numbers -/

namespace Polled

/-- `engine_service_transfer_list`: what is dequeued is taken from the count and from the queue, and
the rest of the count ends in the transfer that is left as the first one. -/
structure LoopEnd (p : Polled) (list : List Nat) (n : Nat) (q : Polled) (m : Nat) : Prop where
  running : q.engine.running = p.engine.running
  next : q.kern.next = p.kern.next
  left : ∀ t ∈ q.engine.transferList, t ∈ list
  count : q.engine.descDequeued + m = p.engine.descDequeued + n
  queued : q.engine.descDequeued + q.kern.descSum q.engine.transferList =
    p.engine.descDequeued + p.kern.descSum list
  inside : ∀ t rest transfer, q.engine.transferList = t :: rest → q.kern.transfers t = some transfer →
    (m < transfer.descNum ↔ p.kern.endsInside list n = true)

end Polled

/-- The states of the transfers do not matter. -/
theorem Kernel.endsInside_setState (k : Kernel) (t : Nat) (state : TransferState) (list : List Nat)
    (n : Nat) : (k.setState t state).endsInside list n = k.endsInside list n := by
  induction list generalizing n with
  | nil => rfl
  | cons x rest ih =>
      unfold Kernel.endsInside
      by_cases hx : x = t
      · subst hx
        rw [Kernel.setState_transfers]
        cases k.transfers x with
        | none => rfl
        | some transfer => simp only [Option.map_some, ih]
      · rw [Kernel.setState_of_ne hx]
        simp only [ih]

namespace Polled

theorem transferList_loopEnd {p q : Polled} {list : List Nat} {n m : Nat}
    (hlist : p.engine.transferList = list)
    (h : engineServiceTransferList list p n = (q, .ok m)) : LoopEnd p list n q m := by
  induction list generalizing p n with
  | nil =>
      rw [engineServiceTransferList, Prod.mk.injEq, Except.ok.injEq] at h
      obtain ⟨rfl, rfl⟩ := h
      refine ⟨rfl, rfl, fun _ ht => hlist ▸ ht, rfl, by rw [hlist], fun t rest transfer hcons => ?_⟩
      rw [hlist] at hcons
      cases hcons
  | cons t rest ih =>
      cases ht : p.kern.transfers t with
      | none => simp [engineServiceTransferList, ht] at h
      | some transfer =>
          by_cases hgo : transfer.cyclic = false ∧ transfer.descNum < n
          · have hnum := Kernel.descNumOf_of_some ht
            rw [transferList_turn ht hgo.1 (hnum ▸ hgo.2)] at h
            have hend := ih (p := p.takeFirst t rest) rfl h
            have hsum : (p.takeFirst t rest).kern.descSum rest = p.kern.descSum rest :=
              p.kern.descSum_setState t .completed rest
            have hdeq : (p.takeFirst t rest).engine.descDequeued =
              p.engine.descDequeued + p.kern.descNumOf t := rfl
            have hcount := hend.count
            have hqueued := hend.queued
            rw [hdeq, hnum] at hcount hqueued
            rw [hsum] at hqueued
            refine ⟨hend.running, hend.next, fun x hx => List.mem_cons_of_mem t (hend.left x hx),
              by omega, ?_, fun x xs transfer' hx ht' => ?_⟩
            · rw [hqueued, Kernel.descSum, hnum]
              omega
            · rw [hend.inside x xs transfer' hx ht', Kernel.endsInside, ht]
              simp only [if_pos hgo]
              rw [show (p.takeFirst t rest).kern = p.kern.setState t .completed from rfl,
                Kernel.endsInside_setState, hnum]
          · rw [engineServiceTransferList] at h
            simp only [ht, if_neg hgo, Prod.mk.injEq, Except.ok.injEq] at h
            obtain ⟨rfl, rfl⟩ := h
            refine ⟨rfl, rfl, fun _ hx => hlist ▸ hx, rfl, by rw [hlist],
              fun x xs transfer' hx ht' => ?_⟩
            rw [hlist, List.cons.injEq] at hx
            obtain ⟨rfl, rfl⟩ := hx
            rw [ht, Option.some.injEq] at ht'
            subst ht'
            rw [Kernel.endsInside, ht]
            simp only [if_neg hgo, decide_eq_true_eq]

/-- Both routines together, when they return. -/
structure Dequeues (p : Polled) (n : Nat) (q : Polled) : Prop where
  running : q.engine.running = p.engine.running
  starts : q.starts = p.starts
  next : q.kern.next = p.kern.next
  left : ∀ t ∈ q.engine.transferList, t ∈ p.engine.transferList
  queued : q.engine.descDequeued + q.kern.descSum q.engine.transferList =
    p.engine.descDequeued + p.kern.descSum p.engine.transferList
  within : p.engine.status &&& errFlags ≠ 0 ∨ p.kern.endsInside p.engine.transferList n = false →
    q.engine.descDequeued ≤ p.engine.descDequeued + n
  beyond : p.engine.status &&& errFlags = 0 → p.kern.endsInside p.engine.transferList n = true →
    p.engine.descDequeued + n < q.engine.descDequeued

theorem LoopEnd.dequeues {p q q' : Polled} {n m : Nat} {rc : Int}
    (h : LoopEnd p p.engine.transferList n q m) (hstatus : q.engine.status = p.engine.status)
    (hstarts : q.starts = p.starts) (hfinal : q.engineServiceFinalTransfer m = (q', .ok rc)) :
    Dequeues p n q' := by
  have hcount := h.count
  unfold engineServiceFinalTransfer at hfinal
  split at hfinal
  · cases hfinal
  · rename_i t rest hlist
    split at hfinal
    · cases hfinal
    · rename_i transfer ht
      have hinside := h.inside t rest transfer hlist ht
      have hsum : q.kern.descSum q.engine.transferList = transfer.descNum + q.kern.descSum rest := by
        rw [hlist, Kernel.descSum, Kernel.descNumOf_of_some ht]
      split at hfinal
      · rename_i herr
        cases hfinal
        refine ⟨h.running, hstarts, h.next, h.left, ?_, fun _ => ?_, fun hok => ?_⟩
        · rw [← h.queued]
          exact congrArg _ (Kernel.descSum_setState ..)
        · exact Nat.le.intro hcount
        · exact absurd hok (hstatus ▸ herr)
      · rename_i herr
        cases hfinal
        have hdeq : q.engine.descDequeued + transfer.descNum + (q.kern.setState t
            (if m < transfer.descNum then .failed else .completed)).descSum rest =
            q.engine.descDequeued + q.kern.descSum q.engine.transferList := by
          rw [Kernel.descSum_setState, hsum, Nat.add_assoc]
        refine ⟨h.running, hstarts, h.next, fun x hx => h.left x (hlist ▸ List.mem_cons_of_mem t hx),
          hdeq.trans h.queued, fun hwhole => ?_, fun _ hin => ?_⟩
        · have hle : transfer.descNum ≤ m := by
            rcases hwhole with hcontra | hout
            · exact absurd (hstatus ▸ hcontra) herr
            · by_contra hlt
              rw [hinside.mp (by omega)] at hout
              cases hout
          show q.engine.descDequeued + transfer.descNum ≤ _
          omega
        · have hlt := hinside.mpr hin
          show _ < q.engine.descDequeued + transfer.descNum
          omega

theorem dequeue_numbers {p q : Polled} {n : Nat} {rc : Int} (h : p.serviceDequeue n = (q, .ok rc)) :
    Dequeues p n q := by
  unfold serviceDequeue at h
  split at h
  · cases h
  · rename_i hcons
    rw [← hcons] at h
    split at h
    · cases h
    · rename_i q' m hloop
      have hframe := transferList_frame p.engine.transferList p n
      rw [hloop] at hframe
      exact (transferList_loopEnd rfl hloop).dequeues hframe.1 hframe.2 h

/-- A count that ends inside a transfer finds that transfer. -/
theorem transferList_of_inside {p : Polled} {list : List Nat} {n : Nat}
    (hlist : p.engine.transferList = list) (h : p.kern.endsInside list n = true) :
    ∃ q m t rest transfer, engineServiceTransferList list p n = (q, .ok m) ∧
      q.engine.transferList = t :: rest ∧ q.kern.transfers t = some transfer := by
  induction list generalizing p n with
  | nil => cases h
  | cons t rest ih =>
      rw [Kernel.endsInside] at h
      cases ht : p.kern.transfers t with
      | none =>
          rw [ht] at h
          cases h
      | some transfer =>
          simp only [ht] at h
          split at h
          · rename_i hgo
            have hnum := Kernel.descNumOf_of_some ht
            rw [transferList_turn ht hgo.1 (hnum ▸ hgo.2)]
            refine ih (p := p.takeFirst t rest) rfl ?_
            rw [show (p.takeFirst t rest).kern = p.kern.setState t .completed from rfl,
              Kernel.endsInside_setState, hnum]
            exact h
          · refine ⟨p, n, t, rest, transfer, ?_, hlist, ht⟩
            exact transferList_stays ht (Nat.le_of_lt (of_decide_eq_true h))

theorem dequeue_of_inside {p : Polled} {n : Nat} (hstatus : p.engine.status &&& errFlags = 0)
    (h : p.kern.endsInside p.engine.transferList n = true) : ∃ q, p.serviceDequeue n = (q, .ok 0) := by
  obtain ⟨q, m, t, rest, transfer, hloop, hlist, ht⟩ := transferList_of_inside rfl h
  have hframe := transferList_frame p.engine.transferList p n
  rw [hloop] at hframe
  have hne : p.engine.transferList ≠ [] := by
    intro hnil
    rw [hnil] at h
    cases h
  exact ⟨_, (serviceDequeue_of_loop hne hloop).trans
    (finalTransfer_of_status hlist ht (hframe.1.symm ▸ hstatus) m)⟩

/-! ## What a service does to a run -/

theorem resume_running {p : Polled} (h : p.engine.running = true) : p.engineServiceResume = (p, .ok 0) := by
  unfold engineServiceResume
  rw [if_pos h]

/-- A stopped engine that runs afterwards was started. -/
theorem resume_fresh {p : Polled} (h : p.engineServiceResume.1.engine.running = true)
    (hrun : p.engine.running = false) :
    p.engineServiceResume.1.starts = p.starts + 1 ∧
      p.engineServiceResume.1.engine.descDequeued = 0 := by
  unfold engineServiceResume at h ⊢
  rw [if_neg (Bool.eq_false_iff.mp hrun)] at h ⊢
  split at h
  · exact absurd (hrun.symm.trans h) Bool.false_ne_true
  · split at h
    · exact absurd (hrun.symm.trans h) Bool.false_ne_true
    · rw [if_neg ‹_›, if_neg ‹_›]
      rcases p.engineStart_cases with ⟨e, herr⟩ | ⟨t, -, q, -, hok, hstarted⟩
      · rw [herr] at h
        exact absurd (hrun.symm.trans h) Bool.false_ne_true
      · rw [hok]
        exact ⟨hstarted.starts, hstarted.descDequeued⟩

/-- The engine is let run on only if no count was seen and it is busy. -/
theorem serviceStop_engine (p : Polled) (wb : Word) (hw : ServiceHw) :
    (p.serviceStop wb hw).engine.descDequeued = p.engine.descDequeued ∧
      ((p.serviceStop wb hw).engine.running = false ∨
        wb &&& wbCountMask = 0 ∧ hw.status &&& xdmaStatBusy ≠ 0 ∧
          (p.serviceStop wb hw).engine.status = hw.status ∧
          (p.serviceStop wb hw).engine.running = p.engine.running) := by
  unfold serviceStop
  dsimp only
  split
  · exact ⟨rfl, .inl rfl⟩
  · rename_i hgo
    obtain ⟨hbusy, hcount⟩ := not_or.mp hgo
    have hstatus : p.serviceStatus wb hw = hw.status := if_pos (.inl (not_not.mp hcount))
    exact ⟨rfl, .inr ⟨not_not.mp hcount, hstatus ▸ hbusy, hstatus, rfl⟩⟩

theorem serviceCompleted_of_le {p : Polled} {wb : Word} {hw : ServiceHw}
    (hle : p.engine.descDequeued ≤ (serviceCount wb hw).toNat) :
    (p.serviceStop wb hw).serviceCompleted wb hw =
      (serviceCount wb hw).toNat - p.engine.descDequeued := by
  have hlt := (serviceCount wb hw).isLt
  have hnat : (BitVec.ofNat 32 p.engine.descDequeued).toNat = p.engine.descDequeued := by
    rw [BitVec.toNat_ofNat, Nat.mod_eq_of_lt (by omega)]
  unfold serviceCompleted
  rw [(serviceStop_engine p wb hw).1, BitVec.toNat_sub_of_le (BitVec.le_def.mpr (hnat.symm ▸ hle)), hnat]

/-- A service of a running engine that does not crash. -/
theorem service_numbers {p : Polled} (hrun : p.engine.running = true) {wb : Word} {hw : ServiceHw}
    (hle : p.engine.descDequeued ≤ (serviceCount wb hw).toNat) {rc : Int}
    (hok : (p.engineService wb hw).2 = .ok rc) :
    ∃ q, Dequeues (p.serviceStop wb hw) ((serviceCount wb hw).toNat - p.engine.descDequeued) q ∧
      (p.engineService wb hw).1 = ({ q with wb := 0 } : Polled).engineServiceResume.1 := by
  rcases engineService_cases hrun wb hw with ⟨e, -, heq⟩ | ⟨rc', hd, heq⟩
  · rw [heq] at hok
    cases hok
  · rw [serviceCompleted_of_le hle] at hd heq
    exact ⟨_, dequeue_numbers (Prod.ext rfl hd), heq⟩

/-- What remains of the queue. -/
theorem service_left {p : Polled} {wb : Word} {hw : ServiceHw}
    (hle : p.engine.running = true → p.engine.descDequeued ≤ (serviceCount wb hw).toNat) {rc : Int}
    (hok : (p.engineService wb hw).2 = .ok rc) :
    (p.engineService wb hw).1.kern.next = p.kern.next ∧
      ∀ t ∈ (p.engineService wb hw).1.engine.transferList, t ∈ p.engine.transferList := by
  cases hrun : p.engine.running with
  | false =>
      obtain ⟨hlist, hkern, -⟩ := engineService_stopped hrun wb hw
      exact ⟨by rw [hkern], fun t ht => hlist ▸ ht⟩
  | true =>
      obtain ⟨q, hdeq, heq⟩ := service_numbers hrun (hle hrun) hok
      obtain ⟨hlist, hkern, -, -⟩ := serviceStop_same p wb hw
      obtain ⟨hlist', hkern', -⟩ := resume_same ({ q with wb := 0 } : Polled)
      rw [heq, hlist', hkern']
      exact ⟨hkern ▸ hdeq.next, fun t ht => hlist ▸ hdeq.left t ht⟩

theorem service_stopped_running {p : Polled} (hrun : p.engine.running = false) (wb : Word)
    (hw : ServiceHw) : (p.engineService wb hw).1.engine.running = false := by
  unfold engineService
  rw [if_pos hrun]
  dsimp only
  split <;> exact hrun

/-- A service with the count `n` of the device lets the engine run on. -/
structure LetRun (p : Polled) (status : Word) (n : Nat) (p' : Polled) : Prop where
  starts : p'.starts = p.starts
  queued : p'.engine.descDequeued + p'.kern.descSum p'.engine.transferList =
    p.engine.descDequeued + p.kern.descSum p.engine.transferList
  within : status &&& errFlags ≠ 0 ∨
      p.kern.endsInside p.engine.transferList (n - p.engine.descDequeued) = false →
    p'.engine.descDequeued ≤ n
  beyond : status &&& errFlags = 0 →
    p.kern.endsInside p.engine.transferList (n - p.engine.descDequeued) = true →
    n < p'.engine.descDequeued

theorem Dequeues.letRun {p q : Polled} {wb : Word} {hw : ServiceHw} {n : Nat}
    (hstatus : (p.serviceStop wb hw).engine.status = hw.status) (hle : p.engine.descDequeued ≤ n)
    (h : Dequeues (p.serviceStop wb hw) (n - p.engine.descDequeued) q) :
    LetRun p hw.status n { q with wb := 0 } := by
  obtain ⟨hlist, hkern, hstarts, -⟩ := serviceStop_same p wb hw
  have hqueued := h.queued
  have hwithin := h.within
  have hbeyond := h.beyond
  rw [hlist, hkern, (serviceStop_engine p wb hw).1] at hqueued hwithin hbeyond
  rw [hstatus, Nat.add_sub_cancel' hle] at hwithin hbeyond
  exact ⟨h.starts.trans hstarts, hqueued, hwithin, hbeyond⟩

/-- An engine that runs after a service was started again, or it was let run on. -/
theorem service_run {p : Polled} (hrun : p.engine.running = true) {wb : Word} {hw : ServiceHw}
    (hle : p.engine.descDequeued ≤ (serviceCount wb hw).toNat) {rc : Int}
    (hok : (p.engineService wb hw).2 = .ok rc)
    (hrun' : (p.engineService wb hw).1.engine.running = true) :
    (p.engineService wb hw).1.starts ≠ p.starts ∧
        (p.engineService wb hw).1.engine.descDequeued = 0 ∨
      wb &&& wbCountMask = 0 ∧ hw.status &&& xdmaStatBusy ≠ 0 ∧
        LetRun p hw.status hw.completedDescCount.toNat (p.engineService wb hw).1 := by
  obtain ⟨q, hdeq, heq⟩ := service_numbers hrun hle hok
  have hstarts : q.starts = p.starts := hdeq.starts.trans (serviceStop_same p wb hw).2.2.1
  rw [heq] at hrun' ⊢
  rcases (serviceStop_engine p wb hw).2 with hstop | ⟨hcount, hbusy, hstatus, hkeep⟩
  · have hfresh := resume_fresh hrun' (hdeq.running.trans hstop)
    refine .inl ⟨?_, hfresh.2⟩
    rw [hfresh.1, ← hstarts]
    exact Nat.succ_ne_self _
  · have hq : q.engine.running = true := hdeq.running.trans (hkeep.trans hrun)
    have hregister : serviceCount wb hw = hw.completedDescCount := if_pos hcount
    rw [hregister] at hle hdeq
    rw [resume_running (p := { q with wb := 0 }) hq]
    exact .inr ⟨hcount, hbusy, hdeq.letRun hstatus hle⟩

/-- A count inside a transfer lets the engine run on with more dequeued than was counted. -/
theorem service_of_inside {p : Polled} (hrun : p.engine.running = true) {wb : Word} {hw : ServiceHw}
    (hle : p.engine.descDequeued ≤ hw.completedDescCount.toNat) (hcount : wb &&& wbCountMask = 0)
    (hbusy : hw.status &&& xdmaStatBusy ≠ 0) (herr : hw.status &&& errFlags = 0)
    (hin : p.kern.endsInside p.engine.transferList
      (hw.completedDescCount.toNat - p.engine.descDequeued) = true) :
    ∃ rc p', p.engineService wb hw = (p', .ok rc) ∧ p'.engine.running = true ∧
      LetRun p hw.status hw.completedDescCount.toNat p' := by
  have hregister : serviceCount wb hw = hw.completedDescCount := if_pos hcount
  have hstatus : p.serviceStatus wb hw = hw.status := if_pos (.inl hcount)
  have hstop : p.serviceStop wb hw = p.setEngine { p.engine with status := hw.status } := by
    unfold serviceStop
    rw [hstatus]
    exact if_neg (not_or.mpr ⟨hbusy, not_not_intro hcount⟩)
  have hcompleted := @serviceCompleted_of_le p wb hw (hregister.symm ▸ hle)
  rw [hregister] at hcompleted
  obtain ⟨q, hq⟩ := dequeue_of_inside (p := p.serviceStop wb hw) (by rw [hstop]; exact herr)
    (n := hw.completedDescCount.toNat - p.engine.descDequeued) (by rw [hstop]; exact hin)
  have hdeq := dequeue_numbers hq
  have hqrun : q.engine.running = true := by
    rw [hdeq.running, hstop]
    exact hrun
  refine ⟨if wb &&& wbErrMask ≠ 0 then -1 else 0, { q with wb := 0 }, ?_, hqrun,
    hdeq.letRun (by rw [hstop]; rfl) hle⟩
  unfold engineService
  rw [if_neg (by rw [hrun]; decide)]
  simp only [hcompleted, hq, resume_running (p := { q with wb := 0 }) hqrun]

/-- `transfer_queue` refuses the transfer, or adds it to the queue of a running engine, or starts
the engine. -/
theorem transferQueue_numbers {p q : Polled} {t : Nat} {rc : Int}
    (h : p.transferQueue t = (q, .ok rc)) :
    rc ≠ 0 ∧ q = p ∨
      rc = 0 ∧ q.kern = p.kern.setState t .submitted ∧
        q.engine.transferList = p.engine.transferList ++ [t] ∧
        (p.engine.running = true ∧ q.starts = p.starts ∧
            q.engine.descDequeued = p.engine.descDequeued ∨
          q.starts = p.starts + 1 ∧ q.engine.descDequeued = 0) := by
  unfold transferQueue at h
  split at h
  · cases h
  · split at h
    · cases h
    · split at h
      · cases h
        exact .inl ⟨by decide, rfl⟩
      · dsimp only at h
        split at h
        · rename_i hrun
          cases h
          exact .inr ⟨rfl, rfl, rfl, .inl ⟨hrun, rfl, rfl⟩⟩
        · rcases engineStart_cases _ with ⟨e, herr⟩ | ⟨x, -, q', -, hok, hstarted⟩
          · cases herr.symm.trans h
          · obtain ⟨rfl, hrc⟩ := Prod.mk.inj (hok.symm.trans h)
            exact .inr ⟨(Except.ok.inj hrc).symm, hstarted.kern, hstarted.transferList,
              .inr ⟨hstarted.starts, hstarted.descDequeued⟩⟩

end Polled

/-- A new transfer does not disturb the others. -/
theorem Kernel.kzallocTransfer_numbers {k k' : Kernel} {transfer : XdmaTransfer} {t : Nat}
    (h : k.kzallocTransfer true transfer = (k', some t)) :
    t = k.next ∧ k'.next = k.next + 1 ∧ k'.descNumOf t = transfer.descNum ∧
      ∀ x, x < k.next → k'.descNumOf x = k.descNumOf x := by
  rw [Kernel.kzallocTransfer, if_pos rfl, Prod.mk.injEq, Option.some.injEq] at h
  obtain ⟨rfl, rfl⟩ := h
  refine ⟨rfl, rfl, Kernel.descNumOf_of_some (Function.update_self ..), fun x hx => ?_⟩
  have hother : ∀ f : Nat → Option XdmaTransfer, Function.update f k.next (some transfer) x = f x :=
    fun f => Function.update_of_ne (Nat.ne_of_lt hx) ..
  simp only [Kernel.descNumOf, hother]

namespace CountRun

variable {r r' : CountRun}

/-! ## Runs -/

/-- As long as the engine runs, no more was dequeued than the device has counted. -/
structure Inv (r : CountRun) : Prop where
  below : ∀ t ∈ r.polled.engine.transferList, t < r.polled.kern.next
  dequeued : r.polled.engine.running = true → r.polled.engine.descDequeued ≤ r.count
  queued : r.polled.engine.running = true → r.polled.engine.descDequeued +
    r.polled.kern.descSum r.polled.engine.transferList = r.queued

/-- The count that a service goes by is not below what was dequeued. -/
theorem Inv.le_serviceCount (h : r.Inv) {expected : Word} {reads : List Word} {hw : ServiceHw}
    (hcounts : r.counts (.service expected reads hw))
    (hmask : expected &&& wbCountMask = expected) (hrun : r.polled.engine.running = true)
    (habove : TimesOutAbove expected reads → r.polled.engine.descDequeued ≤ expected.toNat) :
    r.polled.engine.descDequeued ≤
      (Polled.serviceCount (Polled.engineServiceWbMonitor expected reads) hw).toNat := by
  obtain ⟨hreads, hlow, -⟩ := hcounts hrun
  have hregister := (h.dequeued hrun).trans hlow
  unfold Polled.serviceCount
  split
  · exact hregister
  · rename_i hcount
    rcases wbMonitor_cases expected reads with hzero | hmem | htime
    · rw [hzero] at hcount
      exact absurd (by decide) hcount
    · rcases hreads _ hmem with hzero | ⟨hread, -⟩
      · exact absurd hzero hcount
      · exact (h.dequeued hrun).trans hread
    · rw [wbMonitor_of_timesOut htime, count_or_err, hmask]
      exact habove htime

theorem Inv.not_wraps (h : r.Inv) {a : CountAct} (hcounts : r.counts a) (hok : r.dequeuesWhole a) :
    ¬r.wraps a := by
  cases a with
  | queue transfer => exact id
  | service expected reads hw =>
      rintro ⟨hmask, hrun, hlt⟩
      have hle := h.le_serviceCount hcounts hmask hrun (hok hmask hrun).1
      omega

theorem since_same {p : Polled} {count queued : Nat} (h : p.starts = r.polled.starts) :
    r.since p count queued = ⟨p, count, queued⟩ := if_pos h

/-- After a start nothing is dequeued and nothing is counted. -/
theorem inv_since_start {p : Polled} {count queued : Nat} (hstarts : p.starts ≠ r.polled.starts)
    (hbelow : ∀ t ∈ p.engine.transferList, t < p.kern.next) (hdeq : p.engine.descDequeued = 0) :
    (r.since p count queued).Inv := by
  rw [since, if_neg hstarts]
  refine ⟨hbelow, fun _ => Nat.le_of_eq hdeq, fun _ => ?_⟩
  show p.engine.descDequeued + _ = _
  rw [hdeq, Nat.zero_add]

/-- A stopped engine has nothing to keep. -/
theorem inv_since_stopped {p : Polled} {count queued : Nat} (hrun : p.engine.running = false)
    (hbelow : ∀ t ∈ p.engine.transferList, t < p.kern.next) : (r.since p count queued).Inv := by
  have hp : (r.since p count queued).polled = p := by
    unfold since
    split <;> rfl
  refine ⟨?_, ?_, ?_⟩ <;> rw [hp]
  · exact hbelow
  · exact fun hcontra => absurd (hrun.symm.trans hcontra) Bool.false_ne_true
  · exact fun hcontra => absurd (hrun.symm.trans hcontra) Bool.false_ne_true

theorem Inv.queue (h : r.Inv) {transfer : XdmaTransfer} (hstep : r.queue transfer = some r') : r'.Inv := by
  unfold CountRun.queue at hstep
  split at hstep
  · cases hstep
  · rename_i k t halloc
    obtain ⟨rfl, hnext, hnew, hold⟩ := Kernel.kzallocTransfer_numbers halloc
    have hsum : k.descSum r.polled.engine.transferList =
        r.polled.kern.descSum r.polled.engine.transferList :=
      Kernel.descSum_congr fun t ht => hold t (h.below t ht)
    have hbelow : ∀ t ∈ r.polled.engine.transferList, t < k.next := by
      intro t ht
      have := h.below t ht
      omega
    split at hstep
    · cases hstep
    · rename_i q rc hqueue
      cases hstep
      rcases Polled.transferQueue_numbers hqueue with ⟨hrc, rfl⟩ | ⟨rfl, hkern, hlist, hrun⟩
      · rw [if_neg hrc, since_same (p := r.polled.setKern k) rfl]
        refine ⟨hbelow, h.dequeued, fun hrun => ?_⟩
        show _ + k.descSum r.polled.engine.transferList = _
        rw [hsum]
        exact h.queued hrun
      · have hkern' : q.kern = k.setState r.polled.kern.next .submitted := hkern
        have hlist' : q.engine.transferList =
          r.polled.engine.transferList ++ [r.polled.kern.next] := hlist
        have hbelow' : ∀ t ∈ q.engine.transferList, t < q.kern.next := by
          intro t ht
          rw [hkern']
          show t < k.next
          rw [hlist', List.mem_append, List.mem_singleton] at ht
          rcases ht with ht | rfl
          · exact hbelow t ht
          · omega
        rcases hrun with ⟨hrun, hstarts, hdeq⟩ | ⟨hstarts, hdeq⟩
        · rw [if_pos rfl, since_same hstarts]
          refine ⟨hbelow', fun _ => ?_, fun _ => ?_⟩
          · show q.engine.descDequeued ≤ r.count
            rw [hdeq]
            exact h.dequeued hrun
          · show q.engine.descDequeued + q.kern.descSum q.engine.transferList =
              r.queued + transfer.descNum
            rw [hkern', Kernel.descSum_setState, hlist', Kernel.descSum_append, hsum, hdeq,
              Kernel.descSum, hnew, Kernel.descSum, Nat.add_zero, ← Nat.add_assoc]
            exact congrArg (· + transfer.descNum) (h.queued hrun)
        · exact inv_since_start (by rw [hstarts]; exact Nat.succ_ne_self _) hbelow' hdeq

theorem Inv.service (h : r.Inv) {expected : Word} {reads : List Word} {hw : ServiceHw}
    (hcounts : r.counts (.service expected reads hw))
    (hok : r.dequeuesWhole (.service expected reads hw))
    (hstep : r.service expected reads hw = some r') : r'.Inv := by
  unfold CountRun.service Polled.engineServicePoll at hstep
  by_cases hmask : expected &&& wbCountMask = expected
  · rw [if_neg (not_not_intro hmask)] at hstep
    split at hstep
    · cases hstep
    · rename_i q rc hservice
      cases hstep
      have hle : r.polled.engine.running = true → r.polled.engine.descDequeued ≤ (Polled.serviceCount
          (Polled.engineServiceWbMonitor expected reads) hw).toNat :=
        fun hrun => h.le_serviceCount hcounts hmask hrun (hok hmask hrun).1
      have hrc : (r.polled.engineService (Polled.engineServiceWbMonitor expected reads) hw).2 =
        .ok rc := by rw [hservice]
      have hleft := Polled.service_left hle hrc
      have hbelow : ∀ t ∈ q.engine.transferList, t < q.kern.next := by
        intro t ht
        rw [hservice] at hleft
        rw [hleft.1]
        exact h.below t (hleft.2 t ht)
      cases hrun' : q.engine.running with
      | false => exact inv_since_stopped hrun' hbelow
      | true =>
          have hrun : r.polled.engine.running = true := by
            by_contra hstopped
            have := Polled.service_stopped_running (Bool.eq_false_iff.mpr hstopped)
              (Polled.engineServiceWbMonitor expected reads) hw
            rw [hservice] at this
            exact absurd (this.symm.trans hrun') Bool.false_ne_true
          have hcases := Polled.service_run hrun (hle hrun) hrc (by rw [hservice]; exact hrun')
          rw [hservice] at hcases
          rcases hcases with ⟨hstarts, hdeq⟩ | ⟨hzero, hbusy, hlet⟩
          · exact inv_since_start hstarts hbelow hdeq
          · rw [since_same hlet.starts]
            refine ⟨hbelow, fun _ => hlet.within ?_, fun _ => hlet.queued.trans (h.queued hrun)⟩
            by_cases herr : hw.status &&& errFlags = 0
            · exact .inr ((hok hmask hrun).2 hzero hbusy herr)
            · exact .inl herr
  · rw [if_pos hmask] at hstep
    cases hstep
    rw [since_same rfl]
    exact ⟨h.below, fun hrun => (h.dequeued hrun).trans (hcounts hrun).2.1, h.queued⟩

theorem Inv.step (h : r.Inv) {a : CountAct} (hcounts : r.counts a) (hok : r.dequeuesWhole a)
    (hstep : r.step a = some r') : r'.Inv := by
  cases a with
  | queue transfer => exact h.queue hstep
  | service expected reads hw => exact h.service hcounts hok hstep

theorem inv_start (streaming dirToDev nonIncrAddr : Bool) :
    (start (.created streaming dirToDev nonIncrAddr)).Inv :=
  ⟨fun _ ht => absurd ht List.not_mem_nil, fun hrun => absurd hrun Bool.false_ne_true,
    fun hrun => absurd hrun Bool.false_ne_true⟩

/-- A step that does not meet the condition wraps, or lets the engine run on so that a service with
the same count wraps. -/
theorem Inv.wraps_of_not (h : r.Inv) {a : CountAct} (hcounts : r.counts a)
    (hnot : ¬r.dequeuesWhole a) :
    r.wraps a ∨ ∃ r' a', r.step a = some r' ∧ r'.counts a' ∧ r'.wraps a' := by
  cases a with
  | queue transfer => exact absurd trivial hnot
  | service expected reads hw =>
      by_contra hno
      obtain ⟨hnow, hlater⟩ := not_or.mp hno
      refine hnot fun hmask hrun => ⟨fun htime => ?_, fun hzero hbusy herr => ?_⟩
      · -- the count is cut down to the expected one
        by_contra hlt
        refine hnow ⟨hmask, hrun, ?_⟩
        have hcount : (expected ||| wbErrMask) &&& wbCountMask = expected := by
          rw [count_or_err, hmask]
        rw [wbMonitor_of_timesOut htime, Polled.serviceCount, hcount, if_neg htime.2.1]
        omega
      · by_contra hin
        obtain ⟨-, hlow, hhigh⟩ := hcounts hrun
        obtain ⟨rc, p', hservice, hrun', hlet⟩ := Polled.service_of_inside hrun
          ((h.dequeued hrun).trans hlow) hzero hbusy herr (Bool.eq_true_of_not_eq_false hin)
        refine hlater ⟨⟨p', hw.completedDescCount.toNat, r.queued⟩, .service expected [] hw, ?_, ?_, ?_⟩
        · show r.service expected reads hw = _
          unfold CountRun.service Polled.engineServicePoll
          rw [if_neg (not_not_intro hmask), hservice]
          exact congrArg some (since_same hlet.starts)
        · exact fun _ => ⟨fun _ hw => absurd hw List.not_mem_nil, Nat.le_refl _, hhigh⟩
        · have hregister : Polled.serviceCount (Polled.engineServiceWbMonitor expected []) hw =
              hw.completedDescCount := if_pos (show (0 : Word) &&& wbCountMask = 0 by decide)
          refine ⟨hmask, hrun', ?_⟩
          rw [hregister]
          exact hlet.beyond herr (Bool.eq_true_of_not_eq_false hin)

/-- In every run in which the counts of the device do not decrease and every service meets the
condition, no service that meets it wraps.  One that does not wraps at once, or the next one
may. -/
theorem dequeued_within_count (streaming dirToDev nonIncrAddr : Bool) (r : CountRun)
    (hr : Machine.Reach CountRun.step (fun r a => r.counts a ∧ r.dequeuesWhole a)
      (start (.created streaming dirToDev nonIncrAddr)) r) :
    ∀ a, r.counts a →
      (r.dequeuesWhole a → ¬r.wraps a) ∧
      (¬r.dequeuesWhole a → r.wraps a ∨ ∃ r' a', r.step a = some r' ∧ r'.counts a' ∧ r'.wraps a') := by
  have hinv : r.Inv := hr.invariant (P := Inv) (inv_start streaming dirToDev nonIncrAddr)
    (fun _ _ _ _ h hok hstep => h.step hok.1 hok.2 hstep)
  exact fun a hcounts => ⟨hinv.not_wraps hcounts, hinv.wraps_of_not hcounts⟩

/-- Transfers of two and three descriptors.  The poll for the first one times out when the device has
just completed it, and the engine runs on into the second one. -/
theorem dequeued_within_count_boundary :
    ∃ r a, Machine.Reach CountRun.step (fun r a => r.counts a ∧ r.dequeuesWhole a) (start .idle) r ∧
      r.polled.engine.running = true ∧ r.polled.engine.descDequeued = 2 ∧
      r.counts a ∧ r.dequeuesWhole a ∧ ¬r.wraps a := by
  obtain ⟨r, hr, hp⟩ := Machine.exists_reach_of_execOk CountRun.step
    (fun r a => r.counts a ∧ r.dequeuesWhole a) (start .idle)
    [.queue (Threads.newTransfer 2), .queue (Threads.newTransfer 3), .service 2 [0, 0] ⟨xdmaStatBusy, 2⟩]
    (fun r => decide (r.polled.engine.running = true ∧ r.polled.engine.descDequeued = 2 ∧
      r.counts (.service 3 [5] ⟨0, 5⟩) ∧ r.dequeuesWhole (.service 3 [5] ⟨0, 5⟩))) (by decide +kernel)
  obtain ⟨hrun, hdeq, hcounts, hwhole⟩ := of_decide_eq_true hp
  exact ⟨r, _, hr, hrun, hdeq, hcounts, hwhole,
    (dequeued_within_count false false false r hr _ hcounts).1 hwhole⟩

/-- The poll for a transfer of two descriptors times out when one of them is completed.  The
transfer is taken off as failed, and both its descriptors are counted as dequeued.  The next
service wraps and takes the next transfer for completed, of which the device has done nothing. -/
theorem dequeued_above_count :
    ∃ r hw, Machine.Reach CountRun.step counts (start .idle) r ∧ r.counts (.service 1 [0] hw) ∧
      r.wraps (.service 1 [0] hw) ∧
      (r.polled.serviceStop 0 hw).serviceCompleted 0 hw = 2 ^ 32 - 1 ∧
      ((r.polled.engineService 0 hw).1.kern.transfers 1).map XdmaTransfer.state = some .completed := by
  obtain ⟨r, hr, hp⟩ := Machine.exists_reach_of_execOk CountRun.step counts (start .idle)
    [.queue (Threads.newTransfer 2), .service 2 [0] ⟨xdmaStatBusy, 1⟩, .queue (Threads.newTransfer 1)]
    (fun r => decide (r.counts (.service 1 [0] ⟨xdmaStatBusy, 1⟩) ∧
      r.wraps (.service 1 [0] ⟨xdmaStatBusy, 1⟩) ∧
      (r.polled.serviceStop 0 ⟨xdmaStatBusy, 1⟩).serviceCompleted 0 ⟨xdmaStatBusy, 1⟩ = 2 ^ 32 - 1 ∧
      ((r.polled.engineService 0 ⟨xdmaStatBusy, 1⟩).1.kern.transfers 1).map XdmaTransfer.state =
        some .completed)) (by decide +kernel)
  exact ⟨r, _, hr, of_decide_eq_true hp⟩

end CountRun
end WzXdma
