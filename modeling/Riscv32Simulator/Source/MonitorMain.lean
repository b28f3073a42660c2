import Riscv32Simulator.Source.Elf
import Riscv32Simulator.Source.Interactive
import Riscv32Simulator.Source.Monitor
import Riscv32Simulator.Source.Words

/-! `monitor_main`: the options, the loading of the program, and the batch or the interactive run. -/

namespace Riscv32
open Checked Format

structure Exit where
  status : ℕ
  out : Bytes := []
  err : Bytes := []
deriving DecidableEq, Repr

def Exit.refuse (message : Bytes) : Exit := { status := 2, err := message }

/-! ## Options -/

def defaultLimit : BitVec 64 := 100000
def memoryDefaultSize : ℕ := 64 * memoryKib

structure Options where
  path : Option CText := none
  format : ProgramFormat := .words
  loadAddress : BitVec 64 := 0
  entry : BitVec 64 := 0
  limit : BitVec 64 := defaultLimit
  ramSize : ℕ := memoryDefaultSize
  entrySet : Bool := false
  addressSet : Bool := false
  runBatch : Bool := false
  trace : Bool := false
  color : Bool
deriving DecidableEq

def isInput (option : CText) : Bool :=
  option = ascii "--program" || option = ascii "--elf" || option = ascii "--bin"

def takesValue (option : CText) : Bool :=
  isInput option || option = ascii "--max-steps" || option = ascii "--load-address" ||
    option = ascii "--entry" || option = ascii "--ram"

def setValue (option value : CText) (o : Options) : Except Exit Options :=
  if isInput option then
    if o.path.isSome then
      .error (.refuse (ascii "Choose exactly one input: --program, --elf, or --bin.\n"))
    else .ok { o with
      path := some value
      format := if option = ascii "--elf" then .elf
        else if option = ascii "--bin" then .binary else .words }
  else if option = ascii "--ram" then
    match parseRamSize value with
    | none => .error (.refuse (ascii
        "Invalid RAM size. Use B, KiB, or MiB; 4B through 256MiB in multiples of 4.\n"))
    | some size => .ok { o with ramSize := size }
  else
    match number value (if option = ascii "--max-steps" then BitVec.allOnes 64 else 0xFFFFFFFF) with
    | none => .error (.refuse (print [.text (ascii "Invalid number for "), .text option,
        .text (ascii ": "), .text value, .text (ascii "\n")] []))
    | some value =>
      if option = ascii "--max-steps" then
        if value = 0 then .error (.refuse (ascii "Instruction limit must be positive.\n"))
        else .ok { o with limit := value }
      else if option = ascii "--load-address" then
        .ok { o with loadAddress := value, addressSet := true }
      else .ok { o with entry := value, entrySet := true }

def parseOptions : List CText → Options → Except Exit Options
  | [], o => .ok o
  | option :: args, o =>
    if option = ascii "--help" then .error { status := 0, out := usageText }
    else if option = ascii "--run" then parseOptions args { o with runBatch := true }
    else if option = ascii "--trace" then parseOptions args { o with trace := true }
    else if option = ascii "--color" then parseOptions args { o with color := true }
    else if option = ascii "--no-color" then parseOptions args { o with color := false }
    else if takesValue option then
      match args with
      | [] => .error (.refuse (print [.text (ascii "Missing value for "), .text option,
          .text (ascii ".\n")] []))
      | value :: args =>
        match setValue option value o with
        | .error e => .error e
        | .ok o => parseOptions args o
    else .error (.refuse (print [.text (ascii "Unknown option: "), .text option,
      .text (ascii "\n")] []))

def checkOptions (o : Options) : Except Exit (Options × CText) :=
  match o.path with
  | none => .error (.refuse usageText)
  | some path =>
    if o.format = .binary ∧ (o.addressSet = false ∨ o.entrySet = false) then
      .error (.refuse (ascii "Raw binary requires both --load-address and --entry.\n"))
    else if o.format = .elf ∧ (o.addressSet = true ∨ o.entrySet = true) then
      .error (.refuse (ascii
        "ELF supplies its load addresses and entry; address overrides are unsupported.\n"))
    else .ok (if o.entrySet then o else { o with entry := o.loadAddress }, path)

/-! ## The program -/

/-- `opens` gives what `fopen` makes of the path of the input, `closes` whether `fclose` succeeds;
`malloc` and `calloc` tell which buffers and whether the RAM of the program are granted, `calloc₁`
and `calloc₂` the RAM of the machine and of its reset image; `handles` whether the handler is
installed. -/
structure MainHost extends MonitorHost where
  isatty : Bool
  opens : SourceFiles
  closes : Bool
  malloc : ℕ → Bool
  calloc : Bool
  debug : DebugHost
  calloc₁ : Bool
  calloc₂ : Bool
  handles : Bool
  stdin : Input

def loadProgram (host : MainHost) (o : Options) (input : Input) : Loading Program :=
  match o.format with
  | .elf => programReadElf input o.ramSize host.malloc host.calloc
  | .binary => programReadBinary input o.ramSize (o.loadAddress.setWidth 32) (o.entry.setWidth 32)
      host.malloc host.calloc
  | .words => (programReadWords input o.ramSize (o.loadAddress.setWidth 32) (o.entry.setWidth 32)
      host.calloc).mapError .reported

def inputMessage (path : CText) (line : ℕ) (message : Bytes) : Bytes :=
  print [.text path, .text (ascii ":"), .decimal, .text (ascii ": "), .text message,
    .text (ascii "\n")] [line]

/-! ## Runs -/

def batch (host : MonitorHost) (c : Console) : ℕ × Console :=
  let (run, machine, view, terminal) := machineRun c.session.machine c.session.limit.toNat
    (some (shouldStop host)) (some (traceTo host)) (c.session.toTraceView, c.terminal)
  (batchStatus run.reason machine.exitCode,
    { session := { toTraceView := view, machine := machine, limit := c.session.limit }
      terminal := terminal.put (reportStop run machine) })

def runMonitor (host : MainHost) (fuel : ℕ) (o : Options) (info : DebugInfo) (machine : Machine) :
    Except (Stop Empty) Exit :=
  let c : Console := {
    session := {
      debug := info
      trace := o.trace
      color := o.color
      machine := machine
      limit := o.limit }
    terminal := { input := host.stdin.rest, failing := host.stdin.failing } }
  if o.runBatch then
    let (status, c) := batch host.toMonitorHost c
    .ok { status := status, out := c.terminal.output }
  else
    match interactive host.toMonitorHost fuel c with
    | .ok (status, c) => .ok { status := status, out := c.terminal.output }
    | .error e => .error e

/-- What follows the options: the input is opened and loaded, and the machine is run. -/
def openAndRun (host : MainHost) (fuel : ℕ) (o : Options) (path : CText) : Except (Stop Empty) Exit :=
  match host.opens path with
  | .error text => .ok (.refuse (print [.text (ascii "Cannot open "), .text path,
      .text (ascii ": "), .text text, .text (ascii "\n")] []))
  | .ok input =>
    match loadProgram host o input with
    | .error .outside => .error .outside
    | .error .outOfFuel => .error .outOfFuel
    | .error (.reported e) => .ok (.refuse (inputMessage path e.line (ascii e.message)))
    | .ok program =>
      if host.closes = false then .ok (.refuse (inputMessage path 0 (ascii "input close error")))
      else
        match debugInfoRead host.debug program {} with
        | (false, error, _) => .ok (.refuse (print [.text path, .text (ascii ": "),
            .text (ascii (error.getD "")), .text (ascii "\n")] []))
        | (true, _, info) =>
          match machineLoad machineInit program host.calloc₁ host.calloc₂ with
          | (false, _) => .ok (.refuse (ascii "Cannot create machine state from the program image.\n"))
          | (true, machine) =>
            if host.handles = false then .ok (.refuse (ascii "Cannot install interrupt handler.\n"))
            else runMonitor host fuel o info machine

/-- `main` hands its arguments over; the first one is the program's own name. -/
def monitorMain (host : MainHost) (fuel : ℕ) (argv : List CText) : Except (Stop Empty) Exit :=
  match parseOptions (argv.drop 1) { color := host.isatty } with
  | .error e => .ok e
  | .ok o =>
    match checkOptions o with
    | .error e => .ok e
    | .ok (o, path) => openAndRun host fuel o path

end Riscv32
