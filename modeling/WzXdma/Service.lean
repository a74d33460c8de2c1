import WzXdma.Engine

/-!
# The interrupt service routine

`engine_service_work` takes the engine's lock and, in interrupt mode, always calls
`wz_engine_service_cyclic_interrupt`: it scans the ring for completed blocks and
shuts the engine down when the hardware is no longer busy.

The scan loop has no bound of its own.  `scanLoop` is given a number of
iterations, and `Crash.spin` says that it has not ended within them.
-/

namespace WzXdma
namespace Driver

/-- The scan loop from `checkDesc` on, for at most `fuel` iterations. -/
def scanLoop (c : WzConsts) : Nat → Nat → Driver → Except Crash Driver
  | 0, _, _ => .error .spin
  | fuel + 1, checkDesc, d =>
      match d.kern.derefDesc (d.ext.desc checkDesc) 0 with
      | .error e => .error e
      | .ok curDesc =>
          let move := scanMove d.ext.kfifoSize curDesc.toResult checkDesc d.ext.toBlockScan
          -- a FIFO that was never allocated has no memory to store the block in
          if move = .postponed ∧ d.ext.kfifoSize = 0 then .error .noFifo
          else
            match d.ext.toBlockScan.apply c.nofbufs checkDesc move with
            | (b, none) => .ok { d with ext := { d.ext with toBlockScan := b } }
            | (b, some next) =>
                scanLoop c fuel next { d with ext := { d.ext with toBlockScan := b } }

/-- `wz_engine_transfer_dequeue` on a non-empty queue -/
def wzEngineTransferDequeue (d : Driver) : Except Crash Driver :=
  if d.engine.transferList.head? = d.ext.transfer then
    .ok { d with engine := { d.engine with transferList := d.engine.transferList.tail } }
  else .error .bugOn

/-- What follows the scan: "engine was running but is no longer busy?" -/
def serviceShutdown (d : Driver) : Except Crash Driver :=
  if d.engine.running ∧ d.engine.status &&& xdmaStatBusy = 0 then
    match (if d.engine.transferList = [] then .ok d else d.wzEngineTransferDequeue) with
    | .error e => .error e
    | .ok d => .ok { d with engine := d.engine.engineServiceShutdown }
  else .ok d

/-- `wz_engine_service_cyclic_interrupt`; `status` is what the status register
holds. -/
def wzEngineServiceCyclicInterrupt (c : WzConsts) (fuel : Nat) (status : Word) (d : Driver) :
    Except Crash Driver :=
  let d := { d with engine := { d.engine with status := status } }
  match scanLoop c fuel d.ext.blockScannedDesc d with
  | .error e => .error e
  | .ok d => d.serviceShutdown

end Driver
end WzXdma
