import Riscv32Simulator.Source.Cpu
import Riscv32Simulator.Source.Program

/-! `machine.c`: a CPU with its RAM, the retained initial image, and the two ways to advance it. -/

namespace Riscv32

inductive MachineStop
  | ready | limit | stopped | exited | trap | noProgram | invalidArgument
deriving DecidableEq, Repr

structure Machine where
  cpu : Cpu := {}
  memory : Memory := Memory.empty
  initial : Program := {}
  loaded : Bool := false
  exited : Bool := false
  exitCode : BitVec 32 := 0
deriving DecidableEq

structure MachineRun where
  reason : MachineStop := .ready
  attempts : ℕ := 0
  retired : ℕ := 0
  last : CpuStepRecord := {}
deriving DecidableEq, Repr

def machineInit : Machine := {}

def machineDestroy (_ : Machine) : Machine := {}

def machineLoadRejects (program : Program) : Bool :=
  program.memory.bytes.isNone
    || !memorySizeValid program.memory.size || program.imageSize < memoryWordSize
    || program.loadAddress.toNat > program.memory.size - memoryWordSize
    || program.imageSize > program.memory.size - program.loadAddress.toNat
    || program.entry.toNat % memoryWordSize != 0 || program.entry < program.loadAddress
    || (program.entry - program.loadAddress).toNat > program.imageSize - memoryWordSize

/-- `calloc₁` and `calloc₂` are the two RAM allocations, the running one and the retained one. -/
def machineLoad (machine : Machine) (program : Program) (calloc₁ calloc₂ : Bool) :
    Bool × Machine :=
  if machineLoadRejects program then (false, machine) else
  match memoryClone program.memory Memory.empty calloc₁ with
  | none => (false, machine)
  | some memory =>
    match memoryClone program.memory Memory.empty calloc₂ with
    | none => (false, machine)
    | some retained => (true,
        { cpu := { programCounter := program.entry }
          memory := memory
          initial :=
            { memory := retained
              loadAddress := program.loadAddress
              entry := program.entry
              imageSize := program.imageSize
              format := program.format }
          loaded := true })

def machineReset (machine : Machine) : Bool × Machine :=
  if !machine.loaded then (false, machine) else
  match memoryCopy machine.initial.memory machine.memory with
  | none => (false, machine)
  | some memory => (true,
      { machine with
        memory := memory
        cpu := { cpuReset machine.cpu with programCounter := machine.initial.entry }
        exited := false
        exitCode := 0 })

def machineStop (machine : Machine) : Machine :=
  { machine with cpu := { machine.cpu with halted := true } }

def machineStep (machine : Machine) : MachineRun × Machine :=
  if !machine.loaded then ({ reason := .noProgram }, machine)
  else if machine.exited then ({ reason := .exited }, machine)
  else
    let attempt := cpuStepRecorded { machine.cpu with halted := false } machine.memory
    let run : MachineRun := { attempts := 1, last := attempt.record }
    let machine := { machine with cpu := attempt.cpu, memory := attempt.memory }
    if attempt.result = .ok then ({ run with retired := 1, reason := .ready }, machine)
    else if attempt.result = .ecall ∧ machine.cpu.registers 17 = 93#32 then
      -- teaching exit service: a7 = 93, a0 = status
      ({ run with reason := .exited },
        { machine with exited := true, exitCode := machine.cpu.registers 10 })
    else ({ run with reason := .trap }, machine)

section Run

variable {σ : Type}

/-- The stop callback and its context; an absent callback never stops. -/
def askStop (shouldStop : Option (σ → Bool × σ)) (context : σ) : Bool × σ :=
  match shouldStop with
  | none => (false, context)
  | some shouldStop => shouldStop context

def traceAttempt (trace : Option (CpuStepRecord → σ → σ)) (one : MachineRun) (context : σ) : σ :=
  match trace with
  | none => context
  | some trace => if one.attempts ≠ 0 then trace one.last context else context

/-- The loop of `machine_run`; `remaining` is the limit less the attempts made so far. -/
def machineRunLoop (shouldStop : Option (σ → Bool × σ)) (trace : Option (CpuStepRecord → σ → σ)) :
    (remaining : ℕ) → MachineRun → Machine → σ → MachineRun × Machine × σ
  | 0, total, machine, context => ({ total with reason := .limit }, machine, context)
  | remaining + 1, total, machine, context =>
    match askStop shouldStop context with
    | (true, context) => ({ total with reason := .stopped }, machineStop machine, context)
    | (false, context) =>
      let (one, machine) := machineStep machine
      let total := { total with
        attempts := total.attempts + one.attempts
        retired := total.retired + one.retired
        last := one.last }
      let context := traceAttempt trace one context
      if one.reason ≠ .ready then ({ total with reason := one.reason }, machine, context)
      else machineRunLoop shouldStop trace remaining total machine context

def machineRun (machine : Machine) (limit : ℕ) (shouldStop : Option (σ → Bool × σ))
    (trace : Option (CpuStepRecord → σ → σ)) (context : σ) : MachineRun × Machine × σ :=
  if limit = 0 then ({ reason := .invalidArgument }, machine, context)
  else if !machine.loaded then ({ reason := .noProgram }, machine, context)
  else if machine.exited then ({ reason := .exited }, machine, context)
  else machineRunLoop shouldStop trace limit {} machine context

end Run

end Riscv32
