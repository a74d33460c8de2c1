import WzXdma.Ioctl.Start

/-!
# `ioctl_do_wz_stop`, `ioctl_do_wz_confirm` and `ioctl_do_wz_getbuf`

`STOP` asks the hardware to stop and then sleeps until a service routine has seen
it stopped, so it is given as two routines: the request, and what follows once
the engine is no longer running.
-/

namespace WzXdma

open Lib.Loop

namespace Driver

/-! ## Stop -/

/-- One iteration of the loop that frees the descriptors.  It clears
`buf_dma_t[i]`. -/
def stopFree (i : Nat) (d : Driver) : Driver :=
  match d.ext.desc i with
  | none => d
  | some x =>
      { d with
        kern := d.kern.xdmaDescFree x (d.ext.descDma i)
        ext := { d.ext with
          desc := Function.update d.ext.desc i none
          bufDmaT := Function.update d.ext.bufDmaT i 0 } }

/-- `if(ext->transfer) wz_transfer_destroy(ext->transfer); ext->transfer = NULL;` -/
def stopTransfer (d : Driver) : Driver :=
  match d.ext.transfer with
  | none => d
  | some t => { d with kern := d.kern.kfreeTransfer t, ext := { d.ext with transfer := none } }

/-- `ioctl_do_wz_stop` up to `wait_event`. -/
def ioctlDoWzStopRequest (d : Driver) : Except Crash Driver := d.engineCyclicStop

/-- `ioctl_do_wz_stop` after `wait_event` has seen the engine stopped. -/
def ioctlDoWzStopFinish (c : WzConsts) (d : Driver) : Driver × Int :=
  if d.engine.running then (d, -einval)
  else (upTo stopFree c.nofbufs d.stopTransfer, 0)

/-! ## Confirm -/

/-- `struct wz_xdma_data_block_confirm` -/
structure WzXdmaDataBlockConfirm where
  firstDesc : Word
  lastDesc : Word
  deriving DecidableEq, Repr

/-- The body of the restore loop for descriptor `i`. -/
def confirmDesc (c : WzConsts) (i : Nat) (d : Driver) : Except Crash Driver :=
  if c.nofbufs ≤ i then .error .outOfBounds
  else
    match d.ext.descCopy with
    | none => .error .nullDeref
    | some v =>
        match d.kern.copies v with
        | none => .error .useAfterFree
        | some copy =>
            match d.ext.desc i with
            | none => .error .nullDeref
            | some x =>
                match d.kern.coherent x with
                | none => .error .useAfterFree
                | some _ =>
                    match d.kern.modifyDesc (some x) 0
                        (fun y => restoreOrder.foldl (fun y w => y.copyWord (copy i) w) y) with
                    | .error e => .error e
                    | .ok k => .ok { d with kern := k }

/-- The restore loop.  It visits at most `nofbufs` different descriptors, so a loop
that has not met `last` after `fuel = nofbufs` iterations never ends. -/
def confirmLoop (c : WzConsts) (last : Nat) : Nat → Nat → Driver → Except Crash Driver
  | 0, _, _ => .error .spin
  | fuel + 1, i, d =>
      match confirmDesc c i d with
      | .error e => .error e
      | .ok d => if i = last then .ok d else confirmLoop c last fuel (nextDesc c.nofbufs i) d

/-- `ioctl_do_wz_confirm`.  `arg` is `none` when the copy from user space fails.
Numbers out of range are reported in the log, and the loop runs all the same. -/
def ioctlDoWzConfirm (c : WzConsts) (arg : Option WzXdmaDataBlockConfirm) (d : Driver) :
    Except Crash (Driver × Int) :=
  match arg with
  | none => .ok (d, -einval)
  | some dbConf =>
      match confirmLoop c dbConf.lastDesc.toNat c.nofbufs dbConf.firstDesc.toNat d with
      | .error e => .error e
      | .ok d => .ok (d, 0)

/-! ## Getbuf -/

/-- The condition `wait_event_interruptible` waits for. -/
def getbufReady (d : Driver) : Prop := 1 ≤ d.ext.kfifo.length ∨ d.engine.running = false

instance (d : Driver) : Decidable d.getbufReady := inferInstanceAs (Decidable (_ ∨ _))

/-- `ioctl_do_wz_getbuf` once its wait is over.  `copyFails` is the outcome of
`copy_to_user`.  The block handed out is what `kfifo_get` stored, if anything. -/
def ioctlDoWzGetbuf (copyFails : Bool) (d : Driver) :
    Driver × Int × Option WzXdmaDataBlockDesc :=
  if d.engine.running then
    let d' := { d with ext := { d.ext with kfifo := d.ext.kfifo.tail } }
    if copyFails then (d', -einval, none) else (d', 0, d.ext.kfifo.head?)
  else (d, -eio, none)

end Driver
end WzXdma
