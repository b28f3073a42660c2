import Mathlib

/-! `instruction.c`: field extraction and decoding of one 32-bit word. -/

namespace Riscv32

inductive InstructionKind
  | unknown
  | add | sub | sll | slt | sltu | xor | srl | sra | or | and
  | addi | slti | sltiu | xori | ori | andi | slli | srli | srai
  | lui | auipc | jal | jalr
  | beq | bne | blt | bge | bltu | bgeu
  | lb | lh | lw | lbu | lhu | sb | sh | sw
  | fence | ecall | ebreak
deriving DecidableEq, Repr

inductive InstructionFormat
  | unknown | r | i | s | b | u | j
deriving DecidableEq, Repr

/-- Raw slices; the format determines which of them name registers. -/
structure InstructionFields where
  raw : BitVec 32 := 0
  opcode : BitVec 8 := 0
  rd : BitVec 8 := 0
  funct3 : BitVec 8 := 0
  rs1 : BitVec 8 := 0
  rs2 : BitVec 8 := 0
  funct7 : BitVec 8 := 0
deriving DecidableEq, Repr

structure DecodedInstruction where
  kind : InstructionKind := .unknown
  fields : InstructionFields := {}
  format : InstructionFormat := .unknown
  immediate : BitVec 32 := 0
deriving DecidableEq, Repr

def opcodeLoad : BitVec 8 := 0x03#8
def opcodeMiscMem : BitVec 8 := 0x0F#8
def opcodeOpImm : BitVec 8 := 0x13#8
def opcodeAuipc : BitVec 8 := 0x17#8
def opcodeStore : BitVec 8 := 0x23#8
def opcodeOp : BitVec 8 := 0x33#8
def opcodeLui : BitVec 8 := 0x37#8
def opcodeBranch : BitVec 8 := 0x63#8
def opcodeJalr : BitVec 8 := 0x67#8
def opcodeJal : BitVec 8 := 0x6F#8
def opcodeSystem : BitVec 8 := 0x73#8
def funct7Base : BitVec 8 := 0#8
def funct7Alternate : BitVec 8 := 0x20#8

def signExtend (value : BitVec 32) (bits : ℕ) : BitVec 32 :=
  let sign := 1#32 <<< (bits - 1)
  (value ^^^ sign) - sign

def instructionSignedValue (value : BitVec 32) : ℤ :=
  if value.toNat ≤ 2147483647 then (value.toNat : ℤ) else (value.toNat : ℤ) - 0x100000000

def instructionExtractFields (word : BitVec 32) : InstructionFields where
  raw := word
  opcode := (word &&& 0x7F#32).setWidth 8
  rd := ((word >>> 7) &&& 0x1F#32).setWidth 8
  funct3 := ((word >>> 12) &&& 0x07#32).setWidth 8
  rs1 := ((word >>> 15) &&& 0x1F#32).setWidth 8
  rs2 := ((word >>> 20) &&& 0x1F#32).setWidth 8
  funct7 := ((word >>> 25) &&& 0x7F#32).setWidth 8

def registerOps : List InstructionKind := [.add, .sll, .slt, .sltu, .xor, .srl, .or, .and]

def immediateOps : List InstructionKind :=
  [.addi, .unknown, .slti, .sltiu, .xori, .unknown, .ori, .andi]

def branches : List InstructionKind := [.beq, .bne, .unknown, .unknown, .blt, .bge, .bltu, .bgeu]

def loads : List InstructionKind := [.lb, .lh, .lw, .unknown, .lbu, .lhu, .unknown, .unknown]

def stores : List InstructionKind :=
  [.sb, .sh, .sw, .unknown, .unknown, .unknown, .unknown, .unknown]

def instructionDecode (word : BitVec 32) : DecodedInstruction :=
  let f := instructionExtractFields word
  let decoded : DecodedInstruction := { fields := f }
  if f.opcode = opcodeOp then
    { decoded with
      format := .r
      kind :=
        if f.funct7 = funct7Base then registerOps.getD f.funct3.toNat .unknown
        else if f.funct7 = funct7Alternate ∧ f.funct3 = 0#8 then .sub
        else if f.funct7 = funct7Alternate ∧ f.funct3 = 5#8 then .sra
        else .unknown }
  else if f.opcode = opcodeOpImm then
    if f.funct3 = 1#8 ∨ f.funct3 = 5#8 then
      { decoded with
        format := .i
        immediate := f.rs2.setWidth 32
        kind :=
          if f.funct7 = funct7Base then if f.funct3 = 1#8 then .slli else .srli
          else if f.funct3 = 5#8 ∧ f.funct7 = funct7Alternate then .srai
          else immediateOps.getD f.funct3.toNat .unknown }
    else
      { decoded with
        format := .i
        immediate := signExtend (word >>> 20) 12
        kind := immediateOps.getD f.funct3.toNat .unknown }
  else if f.opcode = opcodeLui ∨ f.opcode = opcodeAuipc then
    { decoded with
      format := .u
      immediate := word &&& 0xFFFFF000#32
      kind := if f.opcode = opcodeLui then .lui else .auipc }
  else if f.opcode = opcodeJal then
    { decoded with
      format := .j
      immediate := signExtend (((word >>> 31) <<< 20) ||| (word &&& 0xFF000#32) |||
        ((word >>> 9) &&& 0x800#32) ||| ((word >>> 20) &&& 0x7FE#32)) 21
      kind := .jal }
  else if f.opcode = opcodeJalr then
    { decoded with
      format := .i
      immediate := signExtend (word >>> 20) 12
      kind := if f.funct3 = 0#8 then .jalr else .unknown }
  else if f.opcode = opcodeBranch then
    { decoded with
      format := .b
      immediate := signExtend (((word >>> 31) <<< 12) ||| ((word <<< 4) &&& 0x800#32) |||
        ((word >>> 20) &&& 0x7E0#32) ||| ((word >>> 7) &&& 0x1E#32)) 13
      kind := branches.getD f.funct3.toNat .unknown }
  else if f.opcode = opcodeLoad then
    { decoded with
      format := .i
      immediate := signExtend (word >>> 20) 12
      kind := loads.getD f.funct3.toNat .unknown }
  else if f.opcode = opcodeStore then
    { decoded with
      format := .s
      immediate := signExtend (((word >>> 20) &&& 0xFE0#32) ||| ((word >>> 7) &&& 0x1F#32)) 12
      kind := stores.getD f.funct3.toNat .unknown }
  else if f.opcode = opcodeMiscMem then
    -- base FENCE ignores the reserved rd/rs1 and the ordering fields
    { decoded with
      format := .i
      kind := if f.funct3 = 0#8 then .fence else .unknown }
  else if f.opcode = opcodeSystem then
    { decoded with
      format := .i
      kind :=
        if word = 0x00000073#32 then .ecall
        else if word = 0x00100073#32 then .ebreak
        else .unknown }
  else decoded

end Riscv32
