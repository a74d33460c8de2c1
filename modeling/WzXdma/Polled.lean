import WzXdma.Engine

/-!
# The engine in polled mode

With `poll_mode` set no interrupt is used: a thread that has queued a transfer polls the
count of completed descriptors, which the device writes to memory, and then services the
engine itself.

A service can end in a `BUG_ON` after it has changed the state of some transfers, so the
routines return the state they leave behind together with their result.

`started` and `starts` are not in the source: the transfer that the engine was last started
with, and how often it was started.
-/

namespace WzXdma

def wbCountMask : Word := 0x00ffffff
def wbErrMask : Word := 0x80000000

def xdmaCtrlPollModeWb : Word := 0x4000000

def xdmaStatAlignMismatch : Word := 0x8
def xdmaStatMagicStopped : Word := 0x10
def xdmaStatReadError : Word := 0x3E00
def xdmaStatDescError : Word := 0xF80000

/-- `err_flags` of `engine_service_final_transfer` -/
def errFlags : Word :=
  xdmaStatMagicStopped ||| xdmaStatAlignMismatch ||| xdmaStatReadError ||| xdmaStatDescError

def engineShutdownIdle : Word := 2

/-- What the device answers when an engine is serviced. -/
structure ServiceHw where
  /-- the status register -/
  status : Word
  /-- the register with the number of completed descriptors -/
  completedDescCount : Word
  deriving DecidableEq, Repr

structure Polled where
  drv : Driver
  /-- `completed_desc_count` in the writeback memory -/
  wb : Word
  started : Option Nat
  starts : Nat

namespace XdmaEngine

/-- `xdma_engine_stop` in polled mode -/
def xdmaEngineStopPolled (e : XdmaEngine) : XdmaEngine :=
  { e with
    regs := { e.regs with
      control := xdmaCtrlIeDescAlignMismatch ||| xdmaCtrlIeMagicStopped ||| xdmaCtrlIeReadError |||
        xdmaCtrlIeDescError ||| xdmaCtrlPollModeWb } }

/-- `engine_start_mode_config` in polled mode -/
def engineStartModeConfigPolled (e : XdmaEngine) : XdmaEngine :=
  let mask := xdmaCtrlIeDescStopped ||| xdmaCtrlIeDescCompleted ||| xdmaCtrlIeDescAlignMismatch |||
    xdmaCtrlIeMagicStopped ||| xdmaCtrlIeIdleStopped ||| xdmaCtrlIeReadError ||| xdmaCtrlIeDescError
  { e with
    regs := { e.regs with
      control := xdmaCtrlRunStop ||| xdmaCtrlIeReadError ||| xdmaCtrlIeDescError |||
        xdmaCtrlIeDescAlignMismatch ||| xdmaCtrlIeMagicStopped ||| xdmaCtrlPollModeWb
      interruptEnableMask := if e.xdmaPerf.isSome then mask else e.regs.interruptEnableMask } }

end XdmaEngine

/-- The assignment of `transfer->state`. -/
def Kernel.setState (k : Kernel) (t : Nat) (state : TransferState) : Kernel :=
  { k with
    transfers := Function.update k.transfers t ((k.transfers t).map ({ · with state := state })) }

namespace Kernel

variable {k : Kernel} {t x : Nat}

theorem setState_of_ne (h : x ≠ t) (state : TransferState) :
    (k.setState t state).transfers x = k.transfers x := Function.update_of_ne h ..

theorem setState_self {transfer : XdmaTransfer} (h : k.transfers t = some transfer)
    (state : TransferState) :
    (k.setState t state).transfers t = some { transfer with state := state } := by
  simp [setState, h]

theorem setState_none (h : k.transfers x = none) (state : TransferState) :
    (k.setState t state).transfers x = none := by
  by_cases hx : x = t
  · subst hx
    simp [setState, h]
  · rw [setState_of_ne hx, h]

end Kernel

namespace Polled

def engine (p : Polled) : XdmaEngine := p.drv.engine

def kern (p : Polled) : Kernel := p.drv.kern

def setEngine (p : Polled) (e : XdmaEngine) : Polled := { p with drv := { p.drv with engine := e } }

def setKern (p : Polled) (k : Kernel) : Polled := { p with drv := { p.drv with kern := k } }

/-- `engine_start` -/
def engineStart (p : Polled) : Polled × Except Crash Int :=
  if p.engine.running then (p, .error .bugOn)
  else
    match p.engine.transferList with
    | [] => (p, .error .bugOn)
    | t :: _ =>
        match p.kern.transfers t with
        | none => (p, .error .useAfterFree)
        | some transfer =>
            let extraAdj := if 0 < transfer.descAdjacent
              then min (transfer.descAdjacent - 1) maxExtraAdj else 0
            let e := { p.engine with
              shutdown := 0
              descDequeued := 0
              regs := { p.engine.regs with
                firstDescLo := pciDmaL transfer.descBus
                firstDescHi := pciDmaH transfer.descBus
                firstDescAdjacent := extraAdj } }
            ({ p.setEngine { e.engineStartModeConfigPolled with running := true } with
               started := some t, starts := p.starts + 1 }, .ok 0)

/-- `transfer_queue` -/
def transferQueue (p : Polled) (t : Nat) : Polled × Except Crash Int :=
  match p.kern.transfers t with
  | none => (p, .error .useAfterFree)
  | some transfer =>
      if transfer.descNum = 0 then (p, .error .bugOn)
      else if p.engine.shutdown &&& engineShutdownRequest ≠ 0 then (p, .ok (-1))
      else
        let p := p.setKern (p.kern.setState t .submitted)
        let p := p.setEngine { p.engine with transferList := p.engine.transferList ++ [t] }
        if p.engine.running then (p, .ok 0) else p.engineStart

/-! ## Servicing -/

/-- `engine_service_shutdown` -/
def engineServiceShutdown (p : Polled) : Polled :=
  p.setEngine { p.engine.xdmaEngineStopPolled with running := false }

/-- `engine_service_transfer_list`: the transfers at the front of `list` that were completed
before the current one are taken off.  `descCompleted` has 32 bits, and the loop stops when no
transfer is left. -/
def engineServiceTransferList : List Nat → Polled → Nat → Polled × Except Crash Nat
  | [], p, descCompleted => (p, .ok descCompleted)
  | t :: rest, p, descCompleted =>
      match p.kern.transfers t with
      | none => (p, .error .useAfterFree)
      | some transfer =>
          if transfer.cyclic = false ∧ transfer.descNum < descCompleted then
            let p := p.setKern (p.kern.setState t .completed)
            let p := p.setEngine { p.engine with
              transferList := rest
              descDequeued := p.engine.descDequeued + transfer.descNum }
            engineServiceTransferList rest p (descCompleted - transfer.descNum)
          else (p, .ok descCompleted)

/-- `engine_err_handle`: the transfer stays on the list. -/
def engineErrHandle (p : Polled) (t : Nat) : Polled :=
  let p := p.setKern (p.kern.setState t .failed)
  p.setEngine p.engine.xdmaEngineStopPolled

/-- `engine_service_final_transfer` -/
def engineServiceFinalTransfer (p : Polled) (descCompleted : Nat) : Polled × Except Crash Int :=
  match p.engine.transferList with
  | [] => (p, .error .bugOn)
  | t :: rest =>
      match p.kern.transfers t with
      | none => (p, .error .useAfterFree)
      | some transfer =>
          if p.engine.status &&& errFlags ≠ 0 then (p.engineErrHandle t, .ok 0)
          else
            -- the engine stopped half-way, or the transfer is completed
            let state := if descCompleted < transfer.descNum then .failed else .completed
            let p := p.setKern (p.kern.setState t state)
            (p.setEngine { p.engine with
              transferList := rest
              descDequeued := p.engine.descDequeued + transfer.descNum }, .ok 0)

/-- `engine_service_resume` -/
def engineServiceResume (p : Polled) : Polled × Except Crash Int :=
  if p.engine.running then (p, .ok 0)
  else if p.engine.shutdown &&& engineShutdownRequest ≠ 0 then
    (p.setEngine { p.engine with shutdown := p.engine.shutdown ||| engineShutdownIdle }, .ok 0)
  else if p.engine.transferList = [] then (p, .ok 0)
  else p.engineStart

/-- The status that a service run goes by: it is read again without a count or with an error. -/
def serviceStatus (p : Polled) (descWriteback : Word) (hw : ServiceHw) : Word :=
  if descWriteback &&& wbCountMask = 0 ∨ descWriteback &&& wbErrMask ≠ 0 then hw.status
  else p.engine.status

/-- The count that a service run goes by. -/
def serviceCount (descWriteback : Word) (hw : ServiceHw) : Word :=
  if descWriteback &&& wbCountMask = 0 then hw.completedDescCount else descWriteback &&& wbCountMask

/-- The first part of `engine_service` for a running engine: read the status and shut the
engine down, unless it is busy and no writeback was seen. -/
def serviceStop (p : Polled) (descWriteback : Word) (hw : ServiceHw) : Polled :=
  let p := p.setEngine { p.engine with status := p.serviceStatus descWriteback hw }
  if p.engine.status &&& xdmaStatBusy = 0 ∨ descWriteback &&& wbCountMask ≠ 0 then
    p.engineServiceShutdown
  else p

/-- The number of descriptors that are completed and not yet dequeued, in 32 bits. -/
def serviceCompleted (p : Polled) (descWriteback : Word) (hw : ServiceHw) : Nat :=
  (serviceCount descWriteback hw - BitVec.ofNat 32 p.engine.descDequeued).toNat

/-- The transfers are dequeued. -/
def serviceDequeue (p : Polled) (descCompleted : Nat) : Polled × Except Crash Int :=
  match p.engine.transferList with
  | [] => (p, .error .bugOn)
  | list@(_ :: _) =>
      match engineServiceTransferList list p descCompleted with
      | (p, .error e) => (p, .error e)
      | (p, .ok descCompleted) => p.engineServiceFinalTransfer descCompleted

/-- `engine_service` -/
def engineService (p : Polled) (descWriteback : Word) (hw : ServiceHw) : Polled × Except Crash Int :=
  let rc : Int := if descWriteback &&& wbErrMask ≠ 0 then -1 else 0
  if p.engine.running = false then
    (if descWriteback = 0 then p.setEngine { p.engine with status := hw.status } else p, .ok 0)
  else
    let p := p.serviceStop descWriteback hw
    match p.serviceDequeue (p.serviceCompleted descWriteback hw) with
    | (p, .error e) => (p, .error e)
    | (p, .ok _) =>
        match ({ p with wb := 0 } : Polled).engineServiceResume with
        | (p, .error e) => (p, .error e)
        | (p, .ok _) => (p, .ok rc)

/-- The transfer in which the count ends stays. -/
theorem transferList_stays {p : Polled} {t : Nat} {rest : List Nat} {n : Nat} {transfer : XdmaTransfer}
    (ht : p.kern.transfers t = some transfer) (hn : n ≤ transfer.descNum) :
    engineServiceTransferList (t :: rest) p n = (p, .ok n) := by
  rw [engineServiceTransferList]
  simp only [ht]
  rw [if_neg fun h => Nat.not_lt.mpr hn h.2]

theorem serviceDequeue_of_loop {p q : Polled} {n m : Nat} (hne : p.engine.transferList ≠ [])
    (hloop : engineServiceTransferList p.engine.transferList p n = (q, .ok m)) :
    p.serviceDequeue n = q.engineServiceFinalTransfer m := by
  unfold serviceDequeue
  split
  · rename_i hnil
    exact absurd hnil hne
  · rename_i hcons
    rw [← hcons, hloop]

/-! ## Polling -/

/-- `engine_service_wb_monitor`: `reads` are the values the loop reads, and the time is over
after the last one. -/
def engineServiceWbMonitor (expectedWb : Word) : List Word → Word
  | [] => 0
  | descWb :: rest =>
      if expectedWb = 0 then 0
      else if descWb &&& wbErrMask ≠ 0 ∨ descWb = expectedWb then descWb
      else if rest = [] then
        if expectedWb < descWb &&& wbCountMask then expectedWb ||| wbErrMask else descWb
      else engineServiceWbMonitor expectedWb rest

/-- `engine_service_poll`, for an engine without a cyclic receive transfer -/
def engineServicePoll (p : Polled) (expectedDescCount : Word) (reads : List Word) (hw : ServiceHw) :
    Polled × Except Crash Int :=
  if expectedDescCount &&& wbCountMask ≠ expectedDescCount then (p, .ok (-1))
  else p.engineService (engineServiceWbMonitor expectedDescCount reads) hw

/-- `transfer_monitor` -/
def transferMonitor (p : Polled) (t : Nat) (reads : List Word) (hw : ServiceHw) :
    Polled × Except Crash Int :=
  match p.kern.transfers t with
  | none => (p, .error .useAfterFree)
  | some transfer => p.engineServicePoll (BitVec.ofNat 32 transfer.descNum) reads hw

/-! ## What the routines leave alone -/

/-- Direction and addressing mode of the engine are set once. -/
structure SameConfig (p p' : Polled) : Prop where
  dirToDev : p'.engine.dirToDev = p.engine.dirToDev
  nonIncrAddr : p'.engine.nonIncrAddr = p.engine.nonIncrAddr

namespace SameConfig

variable {p p' p'' : Polled}

theorem refl (p : Polled) : SameConfig p p := ⟨rfl, rfl⟩

theorem trans (h : SameConfig p p') (h' : SameConfig p' p'') : SameConfig p p'' :=
  ⟨h'.dirToDev.trans h.dirToDev, h'.nonIncrAddr.trans h.nonIncrAddr⟩

theorem setKern (p : Polled) (k : Kernel) : SameConfig p (p.setKern k) := ⟨rfl, rfl⟩

end SameConfig

/-- The engine was started with transfer `t`. -/
structure Started (p : Polled) (t : Nat) (q : Polled) : Prop where
  kern : q.kern = p.kern
  transferList : q.engine.transferList = p.engine.transferList
  running : q.engine.running = true
  shutdown : q.engine.shutdown = 0
  descDequeued : q.engine.descDequeued = 0
  status : q.engine.status = p.engine.status
  started : q.started = some t
  starts : q.starts = p.starts + 1
  config : SameConfig p q

/-- A stopped engine is started with the transfer at the head. -/
theorem engineStart_stopped {p : Polled} {t : Nat} {rest : List Nat} {transfer : XdmaTransfer}
    (hrun : p.engine.running = false) (hlist : p.engine.transferList = t :: rest)
    (ht : p.kern.transfers t = some transfer) : ∃ q, p.engineStart = (q, .ok 0) ∧ Started p t q := by
  unfold engineStart
  rw [if_neg (Bool.eq_false_iff.mp hrun), hlist]
  simp only [ht]
  exact ⟨_, rfl, rfl, rfl, rfl, rfl, rfl, rfl, rfl, rfl, rfl, rfl⟩

theorem engineStart_cases (p : Polled) :
    (∃ e, p.engineStart = (p, .error e)) ∨ ∃ t ∈ p.engine.transferList, ∃ q,
      p.engine.running = false ∧ p.engineStart = (q, .ok 0) ∧ Started p t q := by
  cases hrun : p.engine.running with
  | true => exact .inl ⟨.bugOn, by rw [engineStart, if_pos hrun]⟩
  | false =>
      have hgo : ¬p.engine.running = true := Bool.eq_false_iff.mp hrun
      cases hlist : p.engine.transferList with
      | nil => exact .inl ⟨.bugOn, by rw [engineStart, if_neg hgo, hlist]⟩
      | cons t rest =>
          cases ht : p.kern.transfers t with
          | none => exact .inl ⟨.useAfterFree, by rw [engineStart, if_neg hgo, hlist]; simp only [ht]⟩
          | some transfer =>
              obtain ⟨q, hok, hstarted⟩ := engineStart_stopped hrun hlist ht
              exact .inr ⟨t, List.mem_cons_self, q, rfl, hok, hstarted⟩

theorem engineStart_config (p : Polled) : SameConfig p p.engineStart.1 := by
  rcases p.engineStart_cases with ⟨e, herr⟩ | ⟨t, -, q, -, hok, hstarted⟩
  · rw [herr]
    exact .refl p
  · rw [hok]
    exact hstarted.config

theorem transferQueue_config (p : Polled) (t : Nat) : SameConfig p (p.transferQueue t).1 := by
  unfold transferQueue
  split
  · exact .refl p
  · split
    · exact .refl p
    · split
      · exact .refl p
      · dsimp only
        split
        · exact ⟨rfl, rfl⟩
        · exact ⟨(engineStart_config _).dirToDev, (engineStart_config _).nonIncrAddr⟩

theorem engineServiceTransferList_config (list : List Nat) (p : Polled) (n : Nat) :
    SameConfig p (engineServiceTransferList list p n).1 := by
  induction list generalizing p n with
  | nil => exact .refl p
  | cons t rest ih =>
      rw [engineServiceTransferList]
      split
      · exact .refl p
      · split
        · exact ⟨(ih _ _).dirToDev, (ih _ _).nonIncrAddr⟩
        · exact .refl p

theorem engineServiceFinalTransfer_config (p : Polled) (n : Nat) :
    SameConfig p (p.engineServiceFinalTransfer n).1 := by
  unfold engineServiceFinalTransfer
  split
  · exact .refl p
  · split
    · exact .refl p
    · split <;> exact ⟨rfl, rfl⟩

theorem serviceDequeue_config (p : Polled) (n : Nat) : SameConfig p (p.serviceDequeue n).1 := by
  unfold serviceDequeue
  split
  · exact .refl p
  · rename_i t rest hlist
    have hconf := engineServiceTransferList_config (t :: rest) p n
    split
    · rename_i q e hq
      rw [hq] at hconf
      exact hconf
    · rename_i q m hq
      rw [hq] at hconf
      exact hconf.trans (engineServiceFinalTransfer_config q m)

theorem engineServiceResume_config (p : Polled) : SameConfig p p.engineServiceResume.1 := by
  unfold engineServiceResume
  split
  · exact .refl p
  · split
    · exact ⟨rfl, rfl⟩
    · split
      · exact .refl p
      · exact engineStart_config p

theorem serviceStop_config (p : Polled) (wb : Word) (hw : ServiceHw) :
    SameConfig p (p.serviceStop wb hw) := by
  unfold serviceStop
  dsimp only
  split <;> exact ⟨rfl, rfl⟩

theorem engineService_config (p : Polled) (wb : Word) (hw : ServiceHw) :
    SameConfig p (p.engineService wb hw).1 := by
  unfold engineService
  dsimp only
  split
  · split <;> exact ⟨rfl, rfl⟩
  · have hdeq := (serviceStop_config p wb hw).trans
      (serviceDequeue_config (p.serviceStop wb hw) ((p.serviceStop wb hw).serviceCompleted wb hw))
    split
    · rename_i q e hq
      rw [hq] at hdeq
      exact hdeq
    · rename_i q n hq
      rw [hq] at hdeq
      have hres := engineServiceResume_config ({ q with wb := 0 } : Polled)
      have hall : SameConfig p ({ q with wb := 0 } : Polled).engineServiceResume.1 :=
        ⟨hres.dirToDev.trans hdeq.dirToDev, hres.nonIncrAddr.trans hdeq.nonIncrAddr⟩
      split
      · rename_i q' e hq'
        rw [hq'] at hall
        exact hall
      · rename_i q' n' hq'
        rw [hq'] at hall
        exact hall

theorem transferMonitor_config (p : Polled) (t : Nat) (reads : List Word) (hw : ServiceHw) :
    SameConfig p (p.transferMonitor t reads hw).1 := by
  unfold transferMonitor engineServicePoll
  split
  · exact .refl p
  · split
    · exact .refl p
    · exact engineService_config p _ hw

end Polled
end WzXdma
