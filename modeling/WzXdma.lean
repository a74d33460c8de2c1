import WzXdma.Lib.Machine
import WzXdma.Lib.Cyclic
import WzXdma.Lib.Spans
import WzXdma.Lib.Tape
import WzXdma.Lib.Loop
import WzXdma.Lib.Slots
import WzXdma.Lib.Chunks
import WzXdma.Lib.Clocked
import WzXdma.Lib.Buffered
import WzXdma.Lib.Records
import WzXdma.Lib.BottomHalf
import WzXdma.Lib.Periodic
import WzXdma.Lib.Runs
import WzXdma.Desc
import WzXdma.Kernel
import WzXdma.Scan
import WzXdma.Ioctl.Buffers
import WzXdma.Ioctl.Start
import WzXdma.Ioctl.Stop
import WzXdma.Ioctl.Perf
import WzXdma.Service
import WzXdma.Ring
import WzXdma.Mmap
import WzXdma.System
import WzXdma.Effects
import WzXdma.Pointers
import WzXdma.Programmed
import WzXdma.Acquisition
import WzXdma.Overrun
import WzXdma.Assembly
import WzXdma.FullRing
import WzXdma.Placement
import WzXdma.Tester
import WzXdma.TesterRun
import WzXdma.Queue
import WzXdma.Ownership
import WzXdma.Ledger
import WzXdma.Sessions
import WzXdma.Drain
import WzXdma.Readers
import WzXdma.Sgm
import WzXdma.Transfer
import WzXdma.Polled
import WzXdma.Data
import WzXdma.Addresses
import WzXdma.PolledQueue
import WzXdma.PolledThreads
import WzXdma.Usage
import WzXdma.Views
import WzXdma.ScanEnd
import WzXdma.Confirm
import WzXdma.StartRing
import WzXdma.Rollback
import WzXdma.StartFailed
import WzXdma.MmapFrames
import WzXdma.Coalesce
import WzXdma.Prefetch
import WzXdma.Accounting
import WzXdma.DequeuedCount
import WzXdma.NonIncr
import WzXdma.WaitOutcome
import WzXdma.PerfRequest
import WzXdma.PerfStats
import WzXdma.Lib.Paging
import WzXdma.Mapper
import WzXdma.MappedBuffers
import WzXdma.Bar
import WzXdma.Lib.Holdings
import WzXdma.Lib.Fields
import WzXdma.Probe.Device
import WzXdma.Probe.Engines
import WzXdma.Probe.Interfaces
import WzXdma.Probe.Unwind
import WzXdma.Probe.Instances
import WzXdma.Hdl.AxiRegs
import WzXdma.Hdl.Handshake
import WzXdma.Hdl.RegisterFile
import WzXdma.Hdl.Producer
import WzXdma.Hdl.SoftReset
import WzXdma.Hdl.Pacing
import WzXdma.Hdl.RandomSource
import WzXdma.Hdl.RecordSource
import WzXdma.Hdl.AxisFifo
import WzXdma.Hdl.FifoRuns
import WzXdma.Dmover.Driver
import WzXdma.Dmover.Invariant
import WzXdma.Dmover.Handler
import WzXdma.Dmover.Calls
import WzXdma.Dmover.Ownership
import WzXdma.Events
import WzXdma.Interrupts
import WzXdma.ChannelIrq
import WzXdma.Msix
import WzXdma.Delivery
import WzXdma.TesterDrain
import WzXdma.EndToEnd
import WzXdma.Alignment
import WzXdma.Bypass
