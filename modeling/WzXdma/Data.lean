import WzXdma.Polled
import WzXdma.Transfer

/-!
# `transfer_data`

A read or a write is cut into transfers of at most 8 MiB.  Each is created, queued and polled
for, and taken apart again before the next one is created.

One turn of the loop is given in three parts, at whose ends the engine is seen by others: the
transfer is created and queued, the engine is polled and serviced, and the transfer is
destroyed.  `log` is not in the source: it lists the descriptors of the queued transfers, and
the state each transfer was in after the polling.
-/

namespace WzXdma

open Lib Lib.Runs

/-- What the kernel and the device answer in one turn of the loop. -/
structure DataEnv where
  create : CreateEnv
  /-- what is read while polling -/
  reads : List Word
  hw : ServiceHw
  /-- the status register, when it is read after a poll that ended with an error -/
  status : Word

/-- A transfer that was queued.  `state` is `none` if the polling did not return. -/
structure QueuedTransfer where
  descs : List XdmaDesc
  state : Option TransferState

/-- The variables of `transfer_data`. -/
structure DataState where
  polled : Polled
  transferAddr : Nat
  remaining : Int
  done : Int
  res : Int
  pos : DmaAddr
  log : List QueuedTransfer

namespace DataState

/-- The length of the next transfer. -/
def transferLen (s : DataState) : Nat :=
  if (xdmaTransferMaxBytes : Int) < s.remaining then xdmaTransferMaxBytes else s.remaining.toNat

/-- The arguments of `transfer_create`, next to address, length and position. -/
def mode (s : DataState) : BuildMode where
  dirToDev := s.polled.engine.dirToDev
  nonIncrAddr := s.polled.engine.nonIncrAddr
  forceNewDesc := false
  userspace := true

/-- The transfer is created and queued.  There is none when it could not be allocated. -/
def submit (s : DataState) (env : CreateEnv) : DataState × Except Crash (Option Nat) :=
  match s.polled.kern.transferCreate env s.transferAddr s.transferLen s.pos s.mode with
  | .error e => (s, .error e)
  | .ok (k, none) =>
      ({ s with polled := s.polled.setKern k, remaining := 0, res := -eio }, .ok none)
  | .ok (k, some t) =>
      match (s.polled.setKern k).transferQueue t with
      | (p, .error e) =>
          ({ s with polled := p, log := s.log ++ [⟨k.transferDescs t, none⟩] }, .error e)
      | (p, .ok _) => ({ s with polled := p, log := s.log ++ [⟨k.transferDescs t, none⟩] }, .ok (some t))

/-- The engine is polled and serviced. -/
def monitor (s : DataState) (t : Nat) (env : DataEnv) : DataState × Except Crash Int :=
  match s.polled.transferMonitor t env.reads env.hw with
  | (p, .error e) => ({ s with polled := p }, .error e)
  | (p, .ok rc) =>
      ({ s with
         polled := p
         log := s.log.modify (s.log.length - 1)
           ({ · with state := (p.kern.transfers t).map XdmaTransfer.state }) }, .ok rc)

/-- The progress of the request: an error ends it. -/
def advance (s : DataState) : DataState :=
  let len := if s.res ≠ 0 then 0 else s.transferLen
  { s with
    remaining := (if s.res ≠ 0 then 0 else s.remaining) - len
    transferAddr := s.transferAddr + len
    done := s.done + len
    pos := s.pos + BitVec.ofNat 64 len }

/-- A transfer that was taken off the engine is destroyed. -/
def finish (s : DataState) (t : Nat) (rc : Int) (status : Word) : DataState × Except Crash Unit :=
  match s.polled.kern.transfers t with
  | none => (s, .error .useAfterFree)
  | some transfer =>
      if transfer.state ≠ .submitted then
        match s.polled.kern.transferDestroy t with
        | .error e => (s, .error e)
        | .ok k =>
            let res := if transfer.state ≠ .completed then -eio else s.res
            (advance { s with polled := s.polled.setKern k, res := res }, .ok ())
      else if rc ≠ 0 then
        let p := s.polled.setEngine { s.polled.engine with status := status }
        (advance { s with polled := p, res := -erestartsys }, .ok ())
      else (s.advance, .ok ())

/-- One turn of the loop. -/
def turn (env : DataEnv) (s : DataState) : DataState × Except Crash Unit :=
  match s.submit env.create with
  | (s, .error e) => (s, .error e)
  | (s, .ok none) => (s, .ok ())
  | (s, .ok (some t)) =>
      match s.monitor t env with
      | (s, .error e) => (s, .error e)
      | (s, .ok rc) => s.finish t rc env.status

/-- The loop.  It ends after at most `count / XDMA_TRANSFER_MAX_BYTES + 1` turns. -/
def loop (env : Nat → DataEnv) : Nat → Nat → DataState → DataState × Except Crash Unit
  | 0, _, s => (s, .error .spin)
  | fuel + 1, i, s =>
      if s.res = 0 ∧ 0 < s.remaining then
        match s.turn (env i) with
        | (s, .error e) => (s, .error e)
        | (s, .ok ()) => loop env fuel (i + 1) s
      else (s, .ok ())

end DataState

/-- `transfer_data`, with the number of bytes or an error -/
def transferData (p : Polled) (transferAddr : Nat) (remaining : Int) (pos : DmaAddr)
    (env : Nat → DataEnv) : DataState × Except Crash Int :=
  let s : DataState :=
    { polled := p, transferAddr := transferAddr, remaining := remaining, done := 0, res := 0,
      pos := pos, log := [] }
  match s.loop env (remaining.toNat / xdmaTransferMaxBytes + 2) 0 with
  | (s, .error e) => (s, .error e)
  | (s, .ok ()) => (s, .ok (if s.res ≠ 0 then s.res else s.done))

/-- An engine right after it was created, with nothing queued. -/
def Polled.created (streaming dirToDev nonIncrAddr : Bool) : Polled where
  drv :=
    { Driver.created with
      engine := { XdmaEngine.created with
        streaming := streaming, dirToDev := dirToDev, nonIncrAddr := nonIncrAddr } }
  wb := 0
  started := none
  starts := 0

/-- An engine that reads from device memory. -/
def Polled.idle : Polled := .created false false false

/-- Every allocation is granted, and the poll sees `count` completed descriptors. -/
def dataGranted (dma : Nat → DmaAddr) (count : Word) : DataEnv where
  create :=
    { transfer := true, mapper := true, pages := true, dma := dma,
      coherent := some ⟨0x20000000, fun _ => ⟨0, 0, 0, 0, 0, 0, 0, 0⟩⟩ }
  reads := [0, count]
  hw := ⟨0, 0⟩
  status := 0

end WzXdma
