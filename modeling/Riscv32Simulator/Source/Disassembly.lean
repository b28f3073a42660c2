import Riscv32Simulator.Library.Format
import Riscv32Simulator.Source.Instruction

/-! `disassembly.c`: the table of instructions, and the text of one instruction word. -/

namespace Riscv32
open Format

/-- The source's field for the operands is called `syntax`. -/
structure InstructionInfo where
  name : Bytes
  syntaxText : Bytes
deriving DecidableEq

def instructionInfo : InstructionKind → InstructionInfo
  | .unknown => ⟨ascii "unknown", ascii ".word value"⟩
  | .add => ⟨ascii "add", ascii "add rd, rs1, rs2"⟩
  | .sub => ⟨ascii "sub", ascii "sub rd, rs1, rs2"⟩
  | .sll => ⟨ascii "sll", ascii "sll rd, rs1, rs2"⟩
  | .slt => ⟨ascii "slt", ascii "slt rd, rs1, rs2"⟩
  | .sltu => ⟨ascii "sltu", ascii "sltu rd, rs1, rs2"⟩
  | .xor => ⟨ascii "xor", ascii "xor rd, rs1, rs2"⟩
  | .srl => ⟨ascii "srl", ascii "srl rd, rs1, rs2"⟩
  | .sra => ⟨ascii "sra", ascii "sra rd, rs1, rs2"⟩
  | .or => ⟨ascii "or", ascii "or rd, rs1, rs2"⟩
  | .and => ⟨ascii "and", ascii "and rd, rs1, rs2"⟩
  | .addi => ⟨ascii "addi", ascii "addi rd, rs1, imm"⟩
  | .slti => ⟨ascii "slti", ascii "slti rd, rs1, imm"⟩
  | .sltiu => ⟨ascii "sltiu", ascii "sltiu rd, rs1, imm"⟩
  | .xori => ⟨ascii "xori", ascii "xori rd, rs1, imm"⟩
  | .ori => ⟨ascii "ori", ascii "ori rd, rs1, imm"⟩
  | .andi => ⟨ascii "andi", ascii "andi rd, rs1, imm"⟩
  | .slli => ⟨ascii "slli", ascii "slli rd, rs1, shamt"⟩
  | .srli => ⟨ascii "srli", ascii "srli rd, rs1, shamt"⟩
  | .srai => ⟨ascii "srai", ascii "srai rd, rs1, shamt"⟩
  | .lui => ⟨ascii "lui", ascii "lui rd, imm20"⟩
  | .auipc => ⟨ascii "auipc", ascii "auipc rd, imm20"⟩
  | .jal => ⟨ascii "jal", ascii "jal rd, offset"⟩
  | .jalr => ⟨ascii "jalr", ascii "jalr rd, offset(rs1)"⟩
  | .beq => ⟨ascii "beq", ascii "beq rs1, rs2, offset"⟩
  | .bne => ⟨ascii "bne", ascii "bne rs1, rs2, offset"⟩
  | .blt => ⟨ascii "blt", ascii "blt rs1, rs2, offset"⟩
  | .bge => ⟨ascii "bge", ascii "bge rs1, rs2, offset"⟩
  | .bltu => ⟨ascii "bltu", ascii "bltu rs1, rs2, offset"⟩
  | .bgeu => ⟨ascii "bgeu", ascii "bgeu rs1, rs2, offset"⟩
  | .lb => ⟨ascii "lb", ascii "lb rd, offset(rs1)"⟩
  | .lh => ⟨ascii "lh", ascii "lh rd, offset(rs1)"⟩
  | .lw => ⟨ascii "lw", ascii "lw rd, offset(rs1)"⟩
  | .lbu => ⟨ascii "lbu", ascii "lbu rd, offset(rs1)"⟩
  | .lhu => ⟨ascii "lhu", ascii "lhu rd, offset(rs1)"⟩
  | .sb => ⟨ascii "sb", ascii "sb rs2, offset(rs1)"⟩
  | .sh => ⟨ascii "sh", ascii "sh rs2, offset(rs1)"⟩
  | .sw => ⟨ascii "sw", ascii "sw rs2, offset(rs1)"⟩
  | .fence => ⟨ascii "fence", ascii "fence"⟩
  | .ecall => ⟨ascii "ecall", ascii "ecall"⟩
  | .ebreak => ⟨ascii "ebreak", ascii "ebreak"⟩

/-- `snprintf`: the text that the buffer holds, and the length of the whole text. -/
def snprintf (capacity : ℕ) (text : Bytes) : Bytes × ℕ := (text.take (capacity - 1), text.length)

/-- `kind >= INSTRUCTION_LB && kind <= INSTRUCTION_LHU` -/
def isLoadKind (kind : InstructionKind) : Bool :=
  InstructionKind.lb.ctorIdx ≤ kind.ctorIdx && kind.ctorIdx ≤ InstructionKind.lhu.ctorIdx

def instructionText (word : BitVec 32) : Bytes :=
  let d := instructionDecode word
  let f := d.fields
  let name := (instructionInfo d.kind).name
  let rd : ℤ := f.rd.toNat
  let rs1 : ℤ := f.rs1.toNat
  let rs2 : ℤ := f.rs2.toNat
  let imm := instructionSignedValue d.immediate
  if d.kind = .unknown then print [.text (ascii ".word 0x"), .hex 8] [word.toNat]
  else if d.kind = .fence then
    print [.text (ascii "fence pred=0x"), .hex 0, .text (ascii ", succ=0x"), .hex 0,
        .text (ascii ", fm=0x"), .hex 0]
      [((word >>> 24) &&& 15#32).toNat, ((word >>> 20) &&& 15#32).toNat, (word >>> 28).toNat]
  else if d.kind = .ecall ∨ d.kind = .ebreak then print [.text name] []
  else if d.format = .r then
    print [.text name, .text (ascii " x"), .decimal, .text (ascii ", x"), .decimal,
      .text (ascii ", x"), .decimal] [rd, rs1, rs2]
  else if d.format = .u then
    print [.text name, .text (ascii " x"), .decimal, .text (ascii ", 0x"), .hex 5]
      [rd, (d.immediate >>> 12).toNat]
  else if d.format = .j then
    print [.text name, .text (ascii " x"), .decimal, .text (ascii ", "), .decimal] [rd, imm]
  else if d.format = .b then
    print [.text name, .text (ascii " x"), .decimal, .text (ascii ", x"), .decimal,
      .text (ascii ", "), .decimal] [rs1, rs2, imm]
  else if d.format = .s then
    print [.text name, .text (ascii " x"), .decimal, .text (ascii ", "), .decimal,
      .text (ascii "(x"), .decimal, .text (ascii ")")] [rs2, imm, rs1]
  else if d.kind = .jalr ∨ isLoadKind d.kind then
    print [.text name, .text (ascii " x"), .decimal, .text (ascii ", "), .decimal,
      .text (ascii "(x"), .decimal, .text (ascii ")")] [rd, imm, rs1]
  else
    print [.text name, .text (ascii " x"), .decimal, .text (ascii ", x"), .decimal,
      .text (ascii ", "), .decimal] [rd, rs1, imm]

/-- The buffer is null or holds a text; `snprintf` does not fail on these formats. -/
def instructionDisassemble (word : BitVec 32) (buffer : Option Bytes) (capacity : ℕ) :
    Bool × Option Bytes :=
  if buffer = none ∨ capacity = 0 then (false, buffer)
  else
    let (text, length) := snprintf capacity (instructionText word)
    (length < capacity, some text)

end Riscv32
