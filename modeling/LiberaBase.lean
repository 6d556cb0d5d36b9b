import LiberaBase.Lib.Runs
import LiberaBase.Lib.RingWindow
import LiberaBase.Lib.RingFifo
import LiberaBase.Kernel.Types
import LiberaBase.Dma.Engine
import LiberaBase.Dma.Transfer
import LiberaBase.Dma.Invariant
import LiberaBase.Dma.Reader
import LiberaBase.Dma.Safety
import LiberaBase.Dma.Isolation
import LiberaBase.Lib.BitScan
import LiberaBase.Kernel.Registers
import LiberaBase.Timing.Device
import LiberaBase.Cfg.Set
import LiberaBase.Dd.Time
import LiberaBase.Timing.Handlers
import LiberaBase.Timing.Dispatch
import LiberaBase.Timing.Stamps
import LiberaBase.Timing.Pairing
import LiberaBase.Timing.SetTime
import LiberaBase.Timing.Queue
import LiberaBase.Timing.Ctime
import LiberaBase.Timing.Fresh
import LiberaBase.Timing.CtimePair
import LiberaBase.Dd.Read
import LiberaBase.Dd.Position
import LiberaBase.Dd.Split
import LiberaBase.Dma.Count
import LiberaBase.Lib.Grid
import LiberaBase.Sa.Device
import LiberaBase.Sa.Tasklet
import LiberaBase.Kernel.Fifo
import LiberaBase.Event.Send
import LiberaBase.Lib.Ownership
import LiberaBase.Access.Writer
import LiberaBase.Event.Triggers
import LiberaBase.Access.Devices
import LiberaBase.Access.Readers
import LiberaBase.Lib.Exchange
import LiberaBase.Msp.Firmware
import LiberaBase.Msp.Transfer
import LiberaBase.Dd.Irq
import LiberaBase.Pm.Acquire
import LiberaBase.Access.UserCopy
import LiberaBase.Lib.Locking
import LiberaBase.Access.Mutexes
import LiberaBase.Access.Operations
import LiberaBase.Access.Returned
import LiberaBase.Access.Released
import LiberaBase.Timing.Evgen
import LiberaBase.Event.Session
import LiberaBase.Msp.Loader
import LiberaBase.UBoot.Environment
import LiberaBase.Event.Enable
import LiberaBase.Dd.Command
import LiberaBase.Dma.Commands
import LiberaBase.Lib.Transducer
import LiberaBase.Dd.Request
import LiberaBase.Dd.Idle
import LiberaBase.Dd.Status
import LiberaBase.Sa.Pipe
import LiberaBase.Lib.SlotTable
import LiberaBase.Access.Pipes
import LiberaBase.Access.FifoReads
import LiberaBase.Dd.Conversion
import LiberaBase.Dd.Window
import LiberaBase.Dd.Wait
import LiberaBase.Timing.Offset
import LiberaBase.Dd.Checked
import LiberaBase.Timing.Checked
import LiberaBase.Access.Divisions
import LiberaBase.Pm.Interval
import LiberaBase.Dd.SystemTime
import LiberaBase.Lib.Overwrite
import LiberaBase.UBoot.Space
import LiberaBase.UBoot.Lookup
import LiberaBase.UBoot.Bindiff
import LiberaBase.Msp.Frames
import LiberaBase.Msp.EndOfFile
import LiberaBase.Lib.WriteLog
import LiberaBase.Cfg.Atomic
import LiberaBase.Cfg.Offsets
import LiberaBase.Cfg.Threshold
import LiberaBase.Cfg.Mirror
import LiberaBase.Cfg.Store
import LiberaBase.Access.Blocks
import LiberaBase.Lib.Rescale
import LiberaBase.Dd.RoundTrip
import LiberaBase.Irq.Interrupt
import LiberaBase.Irq.Order
import LiberaBase.Irq.CurrentTime
import LiberaBase.Dd.IrqMask
import LiberaBase.Sa.Stream
import LiberaBase.Lib.WaitQueue
import LiberaBase.Access.Waiting
import LiberaBase.Access.Delivery
import LiberaBase.Lib.Custody
import LiberaBase.Access.Load
import LiberaBase.Msp.Load
import LiberaBase.Msp.Port
import LiberaBase.Msp.Voltage
import LiberaBase.Lib.Crc
import LiberaBase.UBoot.Crc
import LiberaBase.Lib.LockOrder
import LiberaBase.Access.Stepped
import LiberaBase.Access.Deadlock
