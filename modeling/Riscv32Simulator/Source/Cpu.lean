import Riscv32Simulator.Source.Instruction
import Riscv32Simulator.Source.Memory

/-! `cpu.c`: registers, fetch, and one recorded step. -/

namespace Riscv32

def cpuZeroRegister : ℕ := 0
def cpuRegisterCount : ℕ := 32
def cpuInstructionSize : ℕ := 4

inductive CpuStepResult
  | ok | halted | invalidArgument | misalignedPc | fetchFailed | unknownInstruction
  | loadMisaligned | loadFailed | storeMisaligned | storeFailed | ecall | breakpoint
deriving DecidableEq, Repr

inductive CpuTrapCause
  | instructionMisaligned | instructionAccess | illegalInstruction | breakpoint
  | loadMisaligned | loadAccess | storeMisaligned | storeAccess | userEcall
deriving DecidableEq, Repr

structure Cpu where
  registers : Fin 32 → BitVec 32 := fun _ => 0
  programCounter : BitVec 32 := 0
  instructionCount : BitVec 64 := 0
  halted : Bool := false
deriving DecidableEq

structure RegisterEffect where
  written : Bool := false
  index : BitVec 8 := 0
  value : BitVec 32 := 0
  before : BitVec 32 := 0
  after : BitVec 32 := 0
  changed : Bool := false
deriving DecidableEq, Repr

structure MemoryEffect where
  attempted : Bool := false
  completed : Bool := false
  write : Bool := false
  width : BitVec 8 := 0
  address : BitVec 32 := 0
  before : BitVec 32 := 0
  after : BitVec 32 := 0
deriving DecidableEq, Repr

structure Trap where
  raised : Bool := false
  cause : CpuTrapCause := .instructionMisaligned
  instructionAddress : BitVec 32 := 0
  value : BitVec 32 := 0
deriving DecidableEq, Repr

structure CpuStepRecord where
  result : CpuStepResult := .ok
  pcBefore : BitVec 32 := 0
  pcAfter : BitVec 32 := 0
  countBefore : BitVec 64 := 0
  countAfter : BitVec 64 := 0
  fetched : Bool := false
  instruction : DecodedInstruction := {}
  rs1Value : BitVec 32 := 0
  rs2Value : BitVec 32 := 0
  branchTaken : Bool := false
  reg : RegisterEffect := {}
  memory : MemoryEffect := {}
  trap : Trap := {}
deriving DecidableEq, Repr

/-! ## Arithmetic -/

def add32 (left right : BitVec 32) : BitVec 32 := (left.setWidth 64 + right.setWidth 64).setWidth 32

def signedLess (left right : BitVec 32) : Bool :=
  decide (left ^^^ 0x80000000#32 < right ^^^ 0x80000000#32)

def arithmeticRight (value : BitVec 32) (amount : BitVec 32) : BitVec 32 :=
  let amount := (amount &&& 31#32).toNat
  if amount = 0 then value
  else if value &&& 0x80000000#32 ≠ 0#32 then
    (value >>> amount) ||| ((0xFFFFFFFF#64 <<< (32 - amount)).setWidth 32)
  else value >>> amount

def flag (b : Bool) : BitVec 32 := if b then 1#32 else 0#32

/-! ## Registers and accesses -/

def cpuReset (_ : Cpu) : Cpu := {}

def cpuReadRegister (cpu : Cpu) (index : ℕ) : Option (BitVec 32) :=
  if h : index < cpuRegisterCount then
    some (if index = cpuZeroRegister then 0 else cpu.registers ⟨index, h⟩)
  else none

def cpuWriteRegister (cpu : Cpu) (index : ℕ) (value : BitVec 32) : Option Cpu :=
  if h : index < cpuRegisterCount then
    some (if index ≠ cpuZeroRegister then
      { cpu with registers := Function.update cpu.registers ⟨index, h⟩ value } else cpu)
  else none

def cpuFetchInstruction (cpu : Cpu) (memory : Memory) : Option (BitVec 32) :=
  memoryReadU32 memory cpu.programCounter

def readWidth (memory : Memory) (address : BitVec 32) (width : ℕ) : Option (BitVec 32) :=
  if width = 1 then (memoryReadU8 memory address).map (·.setWidth 32)
  else if width = 2 then (memoryReadU16 memory address).map (·.setWidth 32)
  else memoryReadU32 memory address

def writeWidth (memory : Memory) (address : BitVec 32) (width : ℕ) (value : BitVec 32) :
    Option Memory :=
  if width = 1 then memoryWriteU8 memory address (value.setWidth 8)
  else if width = 2 then memoryWriteU16 memory address (value.setWidth 16)
  else memoryWriteU32 memory address value

instance neZeroRegisterCount : NeZero 32 := ⟨by decide⟩

/-! ## One step -/

/-- What an attempt leaves behind: result, CPU, RAM, and the record filled so far. -/
structure Attempt where
  result : CpuStepResult
  cpu : Cpu
  memory : Memory
  record : CpuStepRecord
deriving DecidableEq

def fault (cpu : Cpu) (memory : Memory) (record : CpuStepRecord) (result : CpuStepResult)
    (cause : CpuTrapCause) (value : BitVec 32) : Attempt where
  result := result
  cpu := cpu
  memory := memory
  record := { record with
    trap := { raised := true, cause := cause, instructionAddress := record.pcBefore, value := value } }

/-- The locals of `execute` that its `switch` assigns. -/
structure Operation where
  nextPc : BitVec 32
  value : BitVec 32 := 0
  writesRegister : Bool := true
  transfer : Bool := false
  store : Bool := false
  width : ℕ := 0
deriving DecidableEq, Repr

/-- The `switch` of `execute`; its faulting cases give result, cause and trap value. -/
def operation (d : DecodedInstruction) (pc word left right : BitVec 32) :
    Except (CpuStepResult × CpuTrapCause × BitVec 32) Operation :=
  let locals : Operation := { nextPc := add32 pc (BitVec.ofNat 32 cpuInstructionSize) }
  match d.kind with
  | .add => .ok { locals with value := add32 left right }
  | .sub => .ok { locals with value := (left.setWidth 64 - right.setWidth 64).setWidth 32 }
  | .sll => .ok { locals with value := (left.setWidth 64 <<< (right &&& 31#32).toNat).setWidth 32 }
  | .slt => .ok { locals with value := flag (signedLess left right) }
  | .sltu => .ok { locals with value := flag (decide (left < right)) }
  | .xor => .ok { locals with value := left ^^^ right }
  | .srl => .ok { locals with value := left >>> (right &&& 31#32).toNat }
  | .sra => .ok { locals with value := arithmeticRight left right }
  | .or => .ok { locals with value := left ||| right }
  | .and => .ok { locals with value := left &&& right }
  | .addi => .ok { locals with value := add32 left d.immediate }
  | .slti => .ok { locals with value := flag (signedLess left d.immediate) }
  | .sltiu => .ok { locals with value := flag (decide (left < d.immediate)) }
  | .xori => .ok { locals with value := left ^^^ d.immediate }
  | .ori => .ok { locals with value := left ||| d.immediate }
  | .andi => .ok { locals with value := left &&& d.immediate }
  | .slli => .ok { locals with value := (left.setWidth 64 <<< d.immediate.toNat).setWidth 32 }
  | .srli => .ok { locals with value := left >>> d.immediate.toNat }
  | .srai => .ok { locals with value := arithmeticRight left d.immediate }
  | .lui => .ok { locals with value := d.immediate }
  | .auipc => .ok { locals with value := add32 pc d.immediate }
  | .jal => .ok { locals with
      value := locals.nextPc, transfer := true, nextPc := add32 pc d.immediate }
  | .jalr => .ok { locals with
      value := locals.nextPc, transfer := true, nextPc := add32 left d.immediate &&& ~~~1#32 }
  | .beq => .ok { locals with transfer := left = right, writesRegister := false }
  | .bne => .ok { locals with transfer := left ≠ right, writesRegister := false }
  | .blt => .ok { locals with transfer := signedLess left right, writesRegister := false }
  | .bge => .ok { locals with transfer := !signedLess left right, writesRegister := false }
  | .bltu => .ok { locals with transfer := left < right, writesRegister := false }
  | .bgeu => .ok { locals with transfer := left ≥ right, writesRegister := false }
  | .lb | .lbu => .ok { locals with width := 1 }
  | .lh | .lhu => .ok { locals with width := 2 }
  | .lw => .ok { locals with width := 4 }
  | .sb => .ok { locals with width := 1, store := true, writesRegister := false }
  | .sh => .ok { locals with width := 2, store := true, writesRegister := false }
  | .sw => .ok { locals with width := 4, store := true, writesRegister := false }
  | .fence => .ok { locals with writesRegister := false }
  | .ecall => .error (.ecall, .userEcall, 0)
  | .ebreak => .error (.breakpoint, .breakpoint, pc)
  | .unknown => .error (.unknownInstruction, .illegalInstruction, word)

/-- The end of `execute`: destination register, PC and retirement counter. -/
def commit (cpu : Cpu) (memory : Memory) (record : CpuStepRecord) (o : Operation)
    (nextPc value : BitVec 32) : Attempt :=
  let rd := record.instruction.fields.rd
  if o.writesRegister then
    let before := if rd = 0#8 then 0 else cpu.registers (Fin.ofNat 32 rd.toNat)
    let after := if rd = 0#8 then 0 else value
    let record := { record with
      reg := { written := true, index := rd, value := value, before := before, after := after,
               changed := before != after } }
    match cpuWriteRegister cpu rd.toNat value with
    | none => ⟨.invalidArgument, cpu, memory, record⟩
    | some cpu => ⟨.ok, { cpu with
        programCounter := nextPc, instructionCount := cpu.instructionCount + 1 }, memory, record⟩
  else ⟨.ok, { cpu with
      programCounter := nextPc, instructionCount := cpu.instructionCount + 1 }, memory, record⟩

/-- The data access of `execute`, entered with a width other than zero. -/
def access (cpu : Cpu) (memory : Memory) (record : CpuStepRecord) (o : Operation)
    (nextPc left right : BitVec 32) : Attempt :=
  let d := record.instruction
  let address := add32 left d.immediate
  let record := { record with
    memory := { attempted := true, write := o.store, width := BitVec.ofNat 8 o.width,
                address := address } }
  if address.toNat % o.width ≠ 0 then
    fault cpu memory record (if o.store then .storeMisaligned else .loadMisaligned)
      (if o.store then .storeMisaligned else .loadMisaligned) address
  else match readWidth memory address o.width with
  | none => fault cpu memory record (if o.store then .storeFailed else .loadFailed)
      (if o.store then .storeAccess else .loadAccess) address
  | some previous =>
    let record := { record with
      memory := { record.memory with before := previous, after := previous } }
    if o.store then
      let value := if o.width = 1 then (right.setWidth 8).setWidth 32
        else if o.width = 2 then (right.setWidth 16).setWidth 32 else right
      match writeWidth memory address o.width value with
      | none => fault cpu memory record .storeFailed .storeAccess address
      | some memory => commit cpu memory { record with
          memory := { record.memory with after := value, completed := true } } o nextPc value
    else
      let value := if d.kind = .lb ∧ previous &&& 0x80#32 ≠ 0#32 then
        previous ||| 0xFFFFFF00#32 else previous
      let value := if d.kind = .lh ∧ value &&& 0x8000#32 ≠ 0#32 then
        value ||| 0xFFFF0000#32 else value
      commit cpu memory { record with memory := { record.memory with completed := true } }
        o nextPc value

def execute (cpu : Cpu) (memory : Memory) (record : CpuStepRecord) : Attempt :=
  if cpu.halted then ⟨.halted, cpu, memory, record⟩ else
  let pc := cpu.programCounter
  if pc.toNat % cpuInstructionSize ≠ 0 then
    fault cpu memory record .misalignedPc .instructionMisaligned pc
  else match cpuFetchInstruction cpu memory with
  | none => fault cpu memory record .fetchFailed .instructionAccess pc
  | some word =>
    let d := instructionDecode word
    let record := { record with fetched := true, instruction := d }
    if d.kind = .unknown then
      fault cpu memory record .unknownInstruction .illegalInstruction word
    else match cpuReadRegister cpu d.fields.rs1.toNat, cpuReadRegister cpu d.fields.rs2.toNat with
    | some left, some right =>
      let record := { record with rs1Value := left, rs2Value := right }
      match operation d pc word left right with
      | .error (result, cause, value) => fault cpu memory record result cause value
      | .ok o =>
        let nextPc := if d.format = .b ∧ o.transfer then add32 pc d.immediate else o.nextPc
        if o.transfer ∧ nextPc.toNat % cpuInstructionSize ≠ 0 then
          fault cpu memory record .misalignedPc .instructionMisaligned nextPc
        else
          let record := { record with branchTaken := o.transfer }
          if o.width ≠ 0 then access cpu memory record o nextPc left right
          else commit cpu memory record o nextPc o.value
    | _, _ => ⟨.invalidArgument, cpu, memory, record⟩

def cpuStepRecorded (cpu : Cpu) (memory : Memory) : Attempt :=
  let step : CpuStepRecord :=
    { pcBefore := cpu.programCounter, pcAfter := cpu.programCounter,
      countBefore := cpu.instructionCount, countAfter := cpu.instructionCount }
  let attempt := execute cpu memory step
  { attempt with record := { attempt.record with
    result := attempt.result
    pcAfter := attempt.cpu.programCounter
    countAfter := attempt.cpu.instructionCount } }

def cpuStep (cpu : Cpu) (memory : Memory) : CpuStepResult × Cpu × Memory :=
  let attempt := cpuStepRecorded cpu memory
  (attempt.result, attempt.cpu, attempt.memory)

end Riscv32
