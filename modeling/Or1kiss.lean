import Or1kiss.Lib.Outcome
import Or1kiss.Lib.Bits
import Or1kiss.Lib.Runs
import Or1kiss.Lib.Distance
import Or1kiss.Lib.Counter
import Or1kiss.Lib.DelaySlot
import Or1kiss.Lib.Rotate
import Or1kiss.Lib.Limbs
import Or1kiss.Lib.CInt
import Or1kiss.Types
import Or1kiss.Env
import Or1kiss.Tick
import Or1kiss.Mmu
import Or1kiss.Insn
import Or1kiss.Decode
import Or1kiss.Fields
import Or1kiss.Timer
import Or1kiss.Batch
import Or1kiss.Encode
import Or1kiss.State
import Or1kiss.Exception
import Or1kiss.Execute
import Or1kiss.Access
import Or1kiss.Port
import Or1kiss.Doze
import Or1kiss.Spr
import Or1kiss.Advance
import Or1kiss.Machine
import Or1kiss.Memory
import Or1kiss.Effect
import Or1kiss.Frame
import Or1kiss.Raised
import Or1kiss.Fetch
import Or1kiss.Interrupt
import Or1kiss.Indices
import Or1kiss.Executed
import Or1kiss.Transition
import Or1kiss.Breakpoint
import Or1kiss.HostStack
import Or1kiss.Entry
import Or1kiss.Vector
import Or1kiss.Delay
import Or1kiss.Aborted
import Or1kiss.Monitor
import Or1kiss.Reservation
import Or1kiss.Attached
import Or1kiss.Sleep
import Or1kiss.Account
import Or1kiss.Delivery
import Or1kiss.Budget
import Or1kiss.Cost
import Or1kiss.Resume
import Or1kiss.Tlb
import Or1kiss.UserMode
import Or1kiss.RegisterMap
import Or1kiss.Shortcut
import Or1kiss.Refill
import Or1kiss.Bounds
import Or1kiss.DirectPath
import Or1kiss.DecodeCache
import Or1kiss.Apart
import Or1kiss.Twin
import Or1kiss.Transparent
import Or1kiss.Probe
import Or1kiss.ExecRight
import Or1kiss.TlbWrite
import Or1kiss.Aging
import Or1kiss.Text
import Or1kiss.Rsp
import Or1kiss.Framing
import Or1kiss.Retransmission
import Or1kiss.Gdb
import Or1kiss.Handlers
import Or1kiss.RegPackets
import Or1kiss.Mapped
import Or1kiss.MemPackets
import Or1kiss.Commands
import Or1kiss.PageCache
import Or1kiss.Points
import Or1kiss.StopReplies
import Or1kiss.Halted
import Or1kiss.WatchStop
import Or1kiss.WrittenPc
import Or1kiss.CodeWrites
import Or1kiss.Operands
import Or1kiss.Shift
import Or1kiss.Carry
import Or1kiss.Accumulate
import Or1kiss.Operations
import Or1kiss.Products
import Or1kiss.Nesting
import Or1kiss.Rounds
import Or1kiss.Mark
import Or1kiss.Syscall
import Or1kiss.FaultAddress
import Or1kiss.Reply
import Or1kiss.Report
import Or1kiss.StoreFlag
import Or1kiss.Transfer
import Or1kiss.Invalidation
import Or1kiss.WatchRange
import Or1kiss.FpFlags
import Or1kiss.Disasm
import Or1kiss.Shown
import Or1kiss.Trace
import Or1kiss.ElfLoad
import Or1kiss.ElfNeeds
import Or1kiss.Lib.Floor
import Or1kiss.Symbols
import Or1kiss.Lib.Rounding
import Or1kiss.HitRate
import Or1kiss.FixedValues
import Or1kiss.Retimed
import Or1kiss.Quantum
import Or1kiss.Meaning
import Or1kiss.LoadStore
import Or1kiss.Refinement
import Or1kiss.Enclosure
import Or1kiss.Paging
import Or1kiss.Secrecy
import Or1kiss.Lines
import Or1kiss.Preempt
