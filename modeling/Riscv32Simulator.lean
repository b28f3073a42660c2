import Riscv32Simulator.Isa.Codec
import Riscv32Simulator.Isa.Effects
import Riscv32Simulator.Library.LabelledRun
import Riscv32Simulator.Execution.Encoding
import Riscv32Simulator.Execution.Refinement
import Riscv32Simulator.Execution.Disassembly
import Riscv32Simulator.Execution.ByteMap
import Riscv32Simulator.Control.Records
import Riscv32Simulator.Control.Reset
import Riscv32Simulator.Control.Invariant
import Riscv32Simulator.Control.Traps
import Riscv32Simulator.Control.TwoRuns
import Riscv32Simulator.Control.Accounting
import Riscv32Simulator.Loading.HeaderOrder
import Riscv32Simulator.Loading.FlatImage
import Riscv32Simulator.Loading.Numbers
import Riscv32Simulator.Loading.PiecewiseFile
import Riscv32Simulator.Debug.SourceMap
import Riscv32Simulator.Debug.SymbolScan
import Riscv32Simulator.Debug.WellFormed
import Riscv32Simulator.Guest.Memmove
import Riscv32Simulator.Guest.Startup
import Riscv32Simulator.Guest.Start
import Riscv32Simulator.Monitor.Sizes
import Riscv32Simulator.Monitor.Inspection
import Riscv32Simulator.Source.Interactive
import Riscv32Simulator.Control.Callbacks
import Riscv32Simulator.Monitor.Session
import Riscv32Simulator.Monitor.CommandLine
import Riscv32Simulator.Debug.SourceWindow
import Riscv32Simulator.Monitor.Batch
import Riscv32Simulator.Guest.ExitStatus
