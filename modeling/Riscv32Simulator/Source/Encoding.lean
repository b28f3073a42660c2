import Riscv32Simulator.Source.Instruction

/-! `tests/support/encoding.h`: the standard encodings, with the U and shift layouts added. -/

namespace Riscv32

def encodeR (f3 f7 rd rs1 rs2 : BitVec 32) : BitVec 32 :=
  (f7 <<< 25) ||| (rs2 <<< 20) ||| (rs1 <<< 15) ||| (f3 <<< 12) ||| (rd <<< 7) ||| 0x33#32

def encodeI (opcode f3 rd rs1 imm : BitVec 32) : BitVec 32 :=
  ((imm &&& 0xFFF#32) <<< 20) ||| (rs1 <<< 15) ||| (f3 <<< 12) ||| (rd <<< 7) ||| opcode

def encodeS (f3 rs1 rs2 imm : BitVec 32) : BitVec 32 :=
  let u := imm &&& 0xFFF#32
  ((u >>> 5) <<< 25) ||| (rs2 <<< 20) ||| (rs1 <<< 15) ||| (f3 <<< 12) ||| ((u &&& 31#32) <<< 7) |||
    0x23#32

def encodeB (f3 rs1 rs2 imm : BitVec 32) : BitVec 32 :=
  let u := imm &&& 0x1FFF#32
  ((u >>> 12) <<< 31) ||| (((u >>> 5) &&& 63#32) <<< 25) ||| (rs2 <<< 20) |||
    (rs1 <<< 15) ||| (f3 <<< 12) ||| (((u >>> 1) &&& 15#32) <<< 8) ||| (((u >>> 11) &&& 1#32) <<< 7) |||
    0x63#32

def encodeJ (rd imm : BitVec 32) : BitVec 32 :=
  let u := imm &&& 0x1FFFFF#32
  ((u >>> 20) <<< 31) ||| (((u >>> 1) &&& 1023#32) <<< 21) |||
    (((u >>> 11) &&& 1#32) <<< 20) ||| (u &&& 0xFF000#32) ||| (rd <<< 7) ||| 0x6F#32

def encodeU (opcode rd imm : BitVec 32) : BitVec 32 :=
  (imm &&& 0xFFFFF000#32) ||| (rd <<< 7) ||| opcode

def encodeShift (f3 f7 rd rs1 shamt : BitVec 32) : BitVec 32 :=
  (f7 <<< 25) ||| (shamt <<< 20) ||| (rs1 <<< 15) ||| (f3 <<< 12) ||| (rd <<< 7) ||| 0x13#32

structure Operands where
  rd : BitVec 5
  rs1 : BitVec 5
  rs2 : BitVec 5
  imm : ℤ
deriving DecidableEq

/-- The standard encoding of an operation. FENCE takes its ordering bits as the immediate. -/
def encodeOperation (kind : InstructionKind) (o : Operands) : BitVec 32 :=
  let rd := o.rd.setWidth 32
  let rs1 := o.rs1.setWidth 32
  let rs2 := o.rs2.setWidth 32
  let imm := BitVec.ofInt 32 o.imm
  match kind with
  | .unknown => 0
  | .add => encodeR 0 0 rd rs1 rs2
  | .sub => encodeR 0 0x20 rd rs1 rs2
  | .sll => encodeR 1 0 rd rs1 rs2
  | .slt => encodeR 2 0 rd rs1 rs2
  | .sltu => encodeR 3 0 rd rs1 rs2
  | .xor => encodeR 4 0 rd rs1 rs2
  | .srl => encodeR 5 0 rd rs1 rs2
  | .sra => encodeR 5 0x20 rd rs1 rs2
  | .or => encodeR 6 0 rd rs1 rs2
  | .and => encodeR 7 0 rd rs1 rs2
  | .addi => encodeI 0x13 0 rd rs1 imm
  | .slti => encodeI 0x13 2 rd rs1 imm
  | .sltiu => encodeI 0x13 3 rd rs1 imm
  | .xori => encodeI 0x13 4 rd rs1 imm
  | .ori => encodeI 0x13 6 rd rs1 imm
  | .andi => encodeI 0x13 7 rd rs1 imm
  | .slli => encodeShift 1 0 rd rs1 imm
  | .srli => encodeShift 5 0 rd rs1 imm
  | .srai => encodeShift 5 0x20 rd rs1 imm
  | .lui => encodeU 0x37 rd imm
  | .auipc => encodeU 0x17 rd imm
  | .jal => encodeJ rd imm
  | .jalr => encodeI 0x67 0 rd rs1 imm
  | .beq => encodeB 0 rs1 rs2 imm
  | .bne => encodeB 1 rs1 rs2 imm
  | .blt => encodeB 4 rs1 rs2 imm
  | .bge => encodeB 5 rs1 rs2 imm
  | .bltu => encodeB 6 rs1 rs2 imm
  | .bgeu => encodeB 7 rs1 rs2 imm
  | .lb => encodeI 0x03 0 rd rs1 imm
  | .lh => encodeI 0x03 1 rd rs1 imm
  | .lw => encodeI 0x03 2 rd rs1 imm
  | .lbu => encodeI 0x03 4 rd rs1 imm
  | .lhu => encodeI 0x03 5 rd rs1 imm
  | .sb => encodeS 0 rs1 rs2 imm
  | .sh => encodeS 1 rs1 rs2 imm
  | .sw => encodeS 2 rs1 rs2 imm
  | .fence => encodeI 0x0F 0 rd rs1 imm
  | .ecall => 0x00000073
  | .ebreak => 0x00100073

def operationFormat : InstructionKind → InstructionFormat
  | .unknown => .unknown
  | .add | .sub | .sll | .slt | .sltu | .xor | .srl | .sra | .or | .and => .r
  | .lui | .auipc => .u
  | .jal => .j
  | .beq | .bne | .blt | .bge | .bltu | .bgeu => .b
  | .sb | .sh | .sw => .s
  | _ => .i

/-- The documented immediates of an operation; an operation without one takes zero. -/
def immediateRange (kind : InstructionKind) (imm : ℤ) : Prop :=
  match kind, operationFormat kind with
  | .slli, _ | .srli, _ | .srai, _ => 0 ≤ imm ∧ imm ≤ 31
  | _, .i | _, .s => -2048 ≤ imm ∧ imm ≤ 2047
  | _, .b => -4096 ≤ imm ∧ imm ≤ 4094 ∧ imm % 2 = 0
  | _, .j => -1048576 ≤ imm ∧ imm ≤ 1048574 ∧ imm % 2 = 0
  | _, .u => -2147483648 ≤ imm ∧ imm ≤ 2147483647 ∧ imm % 4096 = 0
  | _, _ => imm = 0

/-- The operations whose encoding is determined by registers and an immediate. -/
def hasOperands (kind : InstructionKind) : Prop :=
  kind ≠ .unknown ∧ kind ≠ .fence ∧ kind ≠ .ecall ∧ kind ≠ .ebreak

/-- The operands a decoded word shows; FENCE shows its ordering bits as the raw upper slices. -/
def decodedOperands (d : DecodedInstruction) : Operands where
  rd := d.fields.rd.setWidth 5
  rs1 := d.fields.rs1.setWidth 5
  rs2 := d.fields.rs2.setWidth 5
  imm := if d.kind = .fence then (d.fields.funct7.toNat * 32 + d.fields.rs2.toNat : ℤ)
    else instructionSignedValue d.immediate

end Riscv32
