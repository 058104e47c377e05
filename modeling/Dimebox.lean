import Dimebox.Lib.Effect
import Dimebox.Lib.Text
import Dimebox.Lib.Cells
import Dimebox.Lib.Trace
import Dimebox.Lib.Loop
import Dimebox.Exceptions
import Dimebox.CoreState
import Dimebox.Csr
import Dimebox.Trap
import Dimebox.PhysicalMemory
import Dimebox.PhysicalBytes
import Dimebox.StoreRefinement
import Dimebox.Devices
import Dimebox.Memory
import Dimebox.PhysicalAccess
import Dimebox.Instruction
import Dimebox.Decoder
import Dimebox.Step
import Dimebox.StepLaws
import Dimebox.AluManual
import Dimebox.TrapReturn
import Dimebox.StepEffects
import Dimebox.StepThrows
import Dimebox.ExecuteLaws
import Dimebox.Jumps
import Dimebox.CsrInstructions
import Dimebox.PreciseTraps
import Dimebox.Commit
import Dimebox.Privilege
import Dimebox.LoadStore
import Dimebox.RamFrame
import Dimebox.Rsp
import Dimebox.DebugServer
import Dimebox.DebugFrame
import Dimebox.Simulator
import Dimebox.Atomicity
import Dimebox.Runs
import Dimebox.KilledTarget
import Dimebox.WaitForInterrupt
import Dimebox.PcAlignment
import Dimebox.Width
import Dimebox.Interrupts
import Dimebox.Sleep
import Dimebox.Fetch
import Dimebox.Listing
import Dimebox.Expansion
import Dimebox.Compressed
import Dimebox.CompressedRuns
import Dimebox.Offsets
import Dimebox.Probe
import Dimebox.KeepsExpansion
import Dimebox.AddressRange
import Dimebox.Handled
import Dimebox.Misa
import Dimebox.Counters
import Dimebox.Budget
import Dimebox.Termination
import Dimebox.Session
import Dimebox.Polling
import Dimebox.Rounds
import Dimebox.Transmission
import Dimebox.StoppedTarget
import Dimebox.Stepping
import Dimebox.RegisterViews
import Dimebox.ClientAccess
import Dimebox.RequestFields
import Dimebox.Requests
import Dimebox.Division
import Dimebox.Lib.Calls
import Dimebox.Lib.CInt
import Dimebox.Lib.Uniform
import Dimebox.UartQueues
import Dimebox.UartInterrupts
import Dimebox.MachineTimers
import Dimebox.Breakpoints
import Dimebox.Elfio
import Dimebox.RejectedAccess
import Dimebox.ElfLoading
import Dimebox.FileBlocks
import Dimebox.SavedImage
import Dimebox.DebuggedCore
import Dimebox.ClientChanges
import Dimebox.SignedArithmetic
import Dimebox.Shifts
import Dimebox.JumpManual
import Dimebox.OperandFields
import Dimebox.CsrLocality
import Dimebox.CsrResult
import Dimebox.CsrFilters
import Dimebox.CsrImmediates
import Dimebox.RegisterWrites
import Dimebox.Inspection
import Dimebox.RunSimulation
import Dimebox.ExitStatus
import Dimebox.Lib.Escape
import Dimebox.Framing
import Dimebox.MemoryRequests
import Dimebox.BreakpointHits
import Dimebox.LongAccess
import Dimebox.InitialValues
import Dimebox.SectionCount
import Dimebox.SavingFrame
import Dimebox.BlockEstimate
import Dimebox.SectionNames
import Dimebox.Lib.BoundedQueue
import Dimebox.UartFifo
import Dimebox.UartRegisters
import Dimebox.LoadedValues
import Dimebox.RegisterValues
import Dimebox.ZeroedSections
import Dimebox.Lib.Fairness
import Dimebox.Schedule
import Dimebox.BudgetRounds
import Dimebox.InterruptLatency
import Dimebox.Lib.Simulation
import Dimebox.ManualHarts
import Dimebox.HartSteps
import Dimebox.HartRuns
import Dimebox.ClientLooks
import Dimebox.HartSimulation
import Dimebox.HartPrograms
import Dimebox.Lib.Decimal
import Dimebox.Disassembly
import Dimebox.SerialLine
import Dimebox.AccessRuns
import Dimebox.UartRuns
