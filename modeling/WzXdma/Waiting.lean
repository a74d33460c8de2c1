import WzXdma.Data

/-!
# Both ways to wait for a transfer

`transfer_data` queues a transfer and waits in `transfer_monitor`.  With `poll_mode` set it polls and
services the engine itself.  Otherwise, and this is the default, the thread sleeps: an interrupt has
a work service the engine, and the thread goes on when the transfer is no longer submitted, or when a
signal comes.

The loop is the same.  It is given here for every way to queue and to wait.
-/

namespace WzXdma

/-- What a thread finds when it no longer sleeps: the driver as the interrupts, the works and the
other threads leave it, and the state that they put the transfer in. -/
structure Woken where
  driver : Polled
  state : TransferState

namespace Polled

/-- `transfer_queue` without `poll_mode` -/
def transferQueueIrq (p : Polled) (t : Nat) : Polled × Except Crash Int :=
  match p.drv.transferQueue t with
  | .error e => (p, .error e)
  | .ok (d, rc) => ({ p with drv := d }, .ok rc)

/-- The driver after a sleep.  Nobody else sets direction and addressing mode of the engine, or
anything of the transfer but its state. -/
def wake (p : Polled) (t : Nat) (transfer : XdmaTransfer) (woken : Woken) : Polled :=
  let p' := woken.driver.setKern { woken.driver.kern with
    transfers := Function.update woken.driver.kern.transfers t
      (some { transfer with state := woken.state }) }
  p'.setEngine { p'.engine with
    dirToDev := p.engine.dirToDev, nonIncrAddr := p.engine.nonIncrAddr }

/-- `transfer_monitor` without `poll_mode`.  `wait_event_interruptible` looks at its condition before
it sleeps. -/
def transferMonitorIrq (p : Polled) (t : Nat) (woken : Woken) : Polled × Except Crash Int :=
  match p.kern.transfers t with
  | none => (p, .error .useAfterFree)
  | some transfer =>
      if transfer.state ≠ .submitted then (p, .ok 0)
      else (p.wake t transfer woken, .ok (if woken.state ≠ .submitted then 0 else -erestartsys))

theorem transferQueueIrq_config (p : Polled) (t : Nat) : SameConfig p (p.transferQueueIrq t).1 := by
  unfold transferQueueIrq
  cases hqueue : p.drv.transferQueue t with
  | error e => exact .refl p
  | ok made =>
      unfold Driver.transferQueue at hqueue
      split at hqueue
      · cases hqueue
      · split at hqueue
        · cases hqueue
        · split at hqueue
          · cases hqueue
            exact .refl p
          · dsimp only at hqueue
            split at hqueue
            · cases hqueue
              exact ⟨rfl, rfl⟩
            · split at hqueue
              · rename_i d hstart
                cases hqueue
                unfold Driver.engineStart at hstart
                split at hstart
                · cases hstart
                · split at hstart
                  · cases hstart
                  · split at hstart
                    · cases hstart
                    · cases hstart
                      exact ⟨rfl, rfl⟩
              · cases hqueue

theorem transferMonitorIrq_config (p : Polled) (t : Nat) (woken : Woken) :
    SameConfig p (p.transferMonitorIrq t woken).1 := by
  unfold transferMonitorIrq
  split
  · exact .refl p
  · split
    · exact .refl p
    · exact ⟨rfl, rfl⟩

end Polled

/-- How a call queues a transfer and waits for it. -/
structure Waits where
  transferQueue : Polled → Nat → Polled × Except Crash Int
  transferMonitor : Polled → Nat → Polled × Except Crash Int
  queue_config : ∀ p t, Polled.SameConfig p (transferQueue p t).1
  monitor_config : ∀ p t, Polled.SameConfig p (transferMonitor p t).1

def Waits.polled (reads : List Word) (hw : ServiceHw) : Waits where
  transferQueue := Polled.transferQueue
  transferMonitor p t := p.transferMonitor t reads hw
  queue_config := Polled.transferQueue_config
  monitor_config p t := p.transferMonitor_config t reads hw

def Waits.irq (woken : Woken) : Waits where
  transferQueue := Polled.transferQueueIrq
  transferMonitor p t := p.transferMonitorIrq t woken
  queue_config := Polled.transferQueueIrq_config
  monitor_config p t := p.transferMonitorIrq_config t woken

/-- One turn of the loop, with either way to wait. -/
structure TurnEnv where
  create : CreateEnv
  waits : Waits
  /-- the status register, when it is read after a wait that ended with an error -/
  status : Word

def DataEnv.polled (env : DataEnv) : TurnEnv := ⟨env.create, .polled env.reads env.hw, env.status⟩

/-- What the kernel, the device and the rest of the driver answer in one turn of the loop. -/
structure IrqEnv where
  create : CreateEnv
  woken : Woken
  status : Word

def IrqEnv.irq (env : IrqEnv) : TurnEnv := ⟨env.create, .irq env.woken, env.status⟩

namespace DataState

/-- The transfer is created and queued. -/
def submitIn (s : DataState) (env : TurnEnv) : DataState × Except Crash (Option Nat) :=
  match s.polled.kern.transferCreate env.create s.transferAddr s.transferLen s.pos s.mode with
  | .error e => (s, .error e)
  | .ok (k, none) => ({ s with polled := s.polled.setKern k, remaining := 0, res := -eio }, .ok none)
  | .ok (k, some t) =>
      match env.waits.transferQueue (s.polled.setKern k) t with
      | (p, .error e) =>
          ({ s with polled := p, log := s.log ++ [⟨k.transferDescs t, none⟩] }, .error e)
      | (p, .ok _) => ({ s with polled := p, log := s.log ++ [⟨k.transferDescs t, none⟩] }, .ok (some t))

/-- The wait for it. -/
def monitorIn (s : DataState) (t : Nat) (env : TurnEnv) : DataState × Except Crash Int :=
  match env.waits.transferMonitor s.polled t with
  | (p, .error e) => ({ s with polled := p }, .error e)
  | (p, .ok rc) =>
      ({ s with
         polled := p
         log := s.log.modify (s.log.length - 1)
           ({ · with state := (p.kern.transfers t).map XdmaTransfer.state }) }, .ok rc)

/-- One turn of the loop. -/
def turnIn (env : TurnEnv) (s : DataState) : DataState × Except Crash Unit :=
  match s.submitIn env with
  | (s, .error e) => (s, .error e)
  | (s, .ok none) => (s, .ok ())
  | (s, .ok (some t)) =>
      match s.monitorIn t env with
      | (s, .error e) => (s, .error e)
      | (s, .ok rc) => s.finish t rc env.status

/-- The loop. -/
def loopIn (env : Nat → TurnEnv) : Nat → Nat → DataState → DataState × Except Crash Unit
  | 0, _, s => (s, .error .spin)
  | fuel + 1, i, s =>
      if s.res = 0 ∧ 0 < s.remaining then
        match s.turnIn (env i) with
        | (s, .error e) => (s, .error e)
        | (s, .ok ()) => loopIn env fuel (i + 1) s
      else (s, .ok ())

/-- The variables of `transfer_data` at its start. -/
def first (p : Polled) (transferAddr : Nat) (remaining : Int) (pos : DmaAddr) : DataState where
  polled := p
  transferAddr := transferAddr
  remaining := remaining
  done := 0
  res := 0
  pos := pos
  log := []

end DataState

/-- `transfer_data`, with the number of bytes or an error -/
def transferDataIn (p : Polled) (transferAddr : Nat) (remaining : Int) (pos : DmaAddr)
    (env : Nat → TurnEnv) : DataState × Except Crash Int :=
  match (DataState.first p transferAddr remaining pos).loopIn env
      (remaining.toNat / xdmaTransferMaxBytes + 2) 0 with
  | (s, .error e) => (s, .error e)
  | (s, .ok ()) => (s, .ok (if s.res ≠ 0 then s.res else s.done))

/-- `transfer_data` without `poll_mode` -/
def transferDataIrq (p : Polled) (transferAddr : Nat) (remaining : Int) (pos : DmaAddr)
    (env : Nat → IrqEnv) : DataState × Except Crash Int :=
  transferDataIn p transferAddr remaining pos fun i => (env i).irq

namespace DataState

theorem turn_eq (s : DataState) (env : DataEnv) : s.turn env = s.turnIn env.polled := rfl

theorem loop_eq (envs : Nat → DataEnv) (fuel i : Nat) (s : DataState) :
    s.loop envs fuel i = s.loopIn (fun i => (envs i).polled) fuel i := by
  induction fuel generalizing i s with
  | zero => rfl
  | succ fuel ih =>
      rw [loop, loopIn, turn_eq]
      by_cases hgo : s.res = 0 ∧ 0 < s.remaining
      · rw [if_pos hgo, if_pos hgo]
        generalize s.turnIn (envs i).polled = r
        obtain ⟨s', e | ⟨⟩⟩ := r
        · rfl
        · exact ih ..
      · rw [if_neg hgo, if_neg hgo]

end DataState

/-- With `poll_mode` it is the routine from before. -/
theorem transferData_polled (p : Polled) (transferAddr : Nat) (remaining : Int) (pos : DmaAddr)
    (env : Nat → DataEnv) : transferData p transferAddr remaining pos env =
      transferDataIn p transferAddr remaining pos fun i => (env i).polled := by
  unfold transferData transferDataIn
  dsimp only
  rw [DataState.loop_eq]
  rfl

end WzXdma
