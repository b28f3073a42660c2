import Riscv32Simulator.Source.Inspection
import Riscv32Simulator.Source.SourceView

/-! `monitor.c`: the trace of an attempt, the registers, and the report of a run. -/

namespace Riscv32
open Format

def cpuStepResultName : CpuStepResult → Bytes
  | .ok => ascii "ok"
  | .halted => ascii "halted"
  | .invalidArgument => ascii "invalid argument"
  | .misalignedPc => ascii "instruction address misaligned"
  | .fetchFailed => ascii "instruction access fault"
  | .unknownInstruction => ascii "illegal or unsupported instruction"
  | .loadMisaligned => ascii "load address misaligned"
  | .loadFailed => ascii "load access fault"
  | .storeMisaligned => ascii "store address misaligned"
  | .storeFailed => ascii "store access fault"
  | .ecall => ascii "environment call"
  | .breakpoint => ascii "breakpoint"

def machineStopName : MachineStop → Bytes
  | .ready => ascii "ready"
  | .limit => ascii "instruction limit reached"
  | .stopped => ascii "stopped"
  | .exited => ascii "program exited"
  | .trap => ascii "trap"
  | .noProgram => ascii "no program loaded"
  | .invalidArgument => ascii "invalid argument"

def trapCauseNumber : CpuTrapCause → ℕ
  | .instructionMisaligned => 0
  | .instructionAccess => 1
  | .illegalInstruction => 2
  | .breakpoint => 3
  | .loadMisaligned => 4
  | .loadAccess => 5
  | .storeMisaligned => 6
  | .storeAccess => 7
  | .userEcall => 8

def highlightOn : Bytes := 0x1B#8 :: ascii "[36;1m"
def highlightOff : Bytes := 0x1B#8 :: ascii "[0m"

/-! ## Tracing -/

structure TraceView where
  debug : DebugInfo := {}
  lastSource : Option DebugLine := none
  sourceSeen : Bool := false
  trace : Bool := false
  color : Bool := false
  hasRecord : Bool := false
  last : CpuStepRecord := {}
deriving DecidableEq

def sameSource (location lastSource : Option DebugLine) : Bool :=
  match location, lastSource with
  | none, none => true
  | some l, some k => l.file = k.file && l.line = k.line
  | _, _ => false

def assemblyText (record : CpuStepRecord) : Bytes :=
  if record.fetched then
    let (formatted, assembly) := instructionDisassemble record.instruction.fields.raw (some []) 128
    if formatted then assembly.getD [] else ascii "<disassembly truncated>"
  else ascii "<instruction unavailable>"

def registerEffectText (color : Bool) (effect : RegisterEffect) : Bytes :=
  if effect.written then
    (ascii "  " ++ (if color && effect.changed then highlightOn else []) ++
      print [.text (ascii "x"), .decimal, .text (ascii ": 0x"), .hex 8, .text (ascii " -> 0x"), .hex 8]
        [effect.index.toNat, effect.before.toNat, effect.after.toNat] ++
      (if effect.changed then ascii " [changed]" else ascii " [unchanged]") ++
      (if color && effect.changed then highlightOff else [])) ++
    if effect.index = 0 then
      print [.text (ascii " (discarded 0x"), .hex 8, .text (ascii ")")] [effect.value.toNat]
    else []
  else []

def memoryEffectText (effect : MemoryEffect) : Bytes :=
  if effect.attempted then
    print [.text (ascii "  "), .text (if effect.write then ascii "store" else ascii "load"), .decimal,
        .text (ascii " [0x"), .hex 8, .text (ascii "]")] [effect.width.toNat * 8, effect.address.toNat] ++
    if effect.completed then
      print [.text (ascii ": 0x"), .hex 8, .text (ascii " -> 0x"), .hex 8]
        [effect.before.toNat, effect.after.toNat]
    else []
  else []

def trapText (record : CpuStepRecord) : Bytes :=
  if record.trap.raised then
    print [.text (ascii "  "), .text (cpuStepResultName record.result), .text (ascii " (cause="),
        .decimal, .text (ascii ", value=0x"), .hex 8, .text (ascii ")")]
      [trapCauseNumber record.trap.cause, record.trap.value.toNat]
  else []

def traceLine (color : Bool) (record : CpuStepRecord) : Bytes :=
  print [.text (ascii "0x"), .hex 8, .text (ascii "  ")] [record.pcBefore.toNat] ++
    leftJustified 32 (assemblyText record) ++ registerEffectText color record.reg ++
    memoryEffectText record.memory ++
    print [.text (ascii "  PC -> 0x"), .hex 8] [record.pcAfter.toNat] ++ trapText record ++ ascii "\n"

def traceStep (files : SourceFiles) (record : CpuStepRecord) (view : TraceView) :
    TraceView × Bytes :=
  let view := { view with last := record, hasRecord := true }
  if view.trace = false then (view, [])
  else
    let location := debugInfoLookup view.debug record.pcBefore
    let label := if view.sourceSeen = false ∨ sameSource location view.lastSource = false then
        sourceViewLocation files view.debug record.pcBefore true
      else []
    ({ view with lastSource := location, sourceSeen := true },
      label ++ traceLine view.color record)

/-! ## Registers -/

def registerAliases : List Bytes :=
  [ascii "zero", ascii "ra", ascii "sp", ascii "gp", ascii "tp", ascii "t0", ascii "t1", ascii "t2",
    ascii "s0/fp", ascii "s1", ascii "a0", ascii "a1", ascii "a2", ascii "a3", ascii "a4", ascii "a5",
    ascii "a6", ascii "a7", ascii "s2", ascii "s3", ascii "s4", ascii "s5", ascii "s6", ascii "s7",
    ascii "s8", ascii "s9", ascii "s10", ascii "s11", ascii "t3", ascii "t4", ascii "t5", ascii "t6"]

def TraceView.marks (view : TraceView) (reg : ℕ) : Bool :=
  view.hasRecord && view.last.reg.changed && view.last.reg.index.toNat = reg

def registerText (view : TraceView) (reg : ℕ) (value : BitVec 32) : Bytes :=
  let changed := view.marks reg
  (if view.color && changed then highlightOn else []) ++ ascii "x" ++
    leftJustified 2 (decimal reg) ++ ascii " " ++ leftJustified 5 (registerAliases.getD reg []) ++
    print [.text (ascii " 0x"), .hex 8, .text (ascii "  signed="), .decimal,
        .text (ascii "  unsigned="), .decimal]
      [value.toNat, instructionSignedValue value, value.toNat] ++
    (if changed then ascii " [changed]" else []) ++
    (if view.color && changed then highlightOff else []) ++ ascii "\n"

def registersLoop (view : TraceView) (cpu : Cpu) : List ℕ → Bytes × Bool
  | [] => ([], true)
  | reg :: rest =>
    match cpuReadRegister cpu reg with
    | none => ([], false)
    | some value =>
      let (output, ended) := registersLoop view cpu rest
      (registerText view reg value ++ output, ended)

def showRegisters (view : TraceView) (machine : Machine) : Bytes :=
  let (output, ended) := registersLoop view machine.cpu (List.range cpuRegisterCount)
  output ++
    if ended then
      print [.text (ascii "PC=0x"), .hex 8, .text (ascii "  retired="), .decimal,
          .text (ascii "  halted="), .text (if machine.cpu.halted then ascii "yes" else ascii "no"),
          .text (ascii "\n")]
        [machine.cpu.programCounter.toNat, machine.cpu.instructionCount.toNat] ++
      print [.text (ascii "RAM="), .decimal, .text (ascii " bytes\n")] [machine.memory.size]
    else []

/-! ## Runs -/

def reportStop (run : MachineRun) (machine : Machine) : Bytes :=
  print [.text (ascii "Stopped: "), .text (machineStopName run.reason), .text (ascii "; attempts="),
      .decimal, .text (ascii "; retired="), .decimal, .text (ascii "; PC=0x"), .hex 8]
    [run.attempts, run.retired, machine.cpu.programCounter.toNat] ++
  (if run.reason = .exited then print [.text (ascii "; exit="), .decimal] [machine.exitCode.toNat]
    else []) ++
  (if run.reason = .trap then
    print [.text (ascii "; "), .text (cpuStepResultName run.last.result),
        .text (ascii "; instruction=0x"), .hex 8, .text (ascii "; value=0x"), .hex 8]
      [run.last.trap.instructionAddress.toNat, run.last.trap.value.toNat] ++
    (if run.last.result = .ecall then
      print [.text (ascii "; unsupported ECALL service a7="), .decimal]
        [(machine.cpu.registers 17).toNat]
      else [])
    else []) ++
  ascii "\n"

def batchStatus (reason : MachineStop) (exitCode : BitVec 32) : ℕ :=
  if reason = .exited then (exitCode &&& 255#32).toNat
  else if reason = .limit then 124
  else if reason = .stopped then 130
  else 1

end Riscv32
