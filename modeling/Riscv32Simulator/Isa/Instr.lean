import Mathlib

/-! The RV32I base instructions, their operands, and the six 32-bit layouts that carry them.
Offsets of branches and jumps are kept without their zero bit 0. -/

namespace Rv32i

abbrev Word := BitVec 32
abbrev Reg := BitVec 5

inductive RegOp
  | add | sub | sll | slt | sltu | xor | srl | sra | or | and
deriving DecidableEq, Repr

inductive ImmOp
  | addi | slti | sltiu | xori | ori | andi
deriving DecidableEq, Repr

inductive ShiftOp
  | slli | srli | srai
deriving DecidableEq, Repr

inductive UpperOp
  | lui | auipc
deriving DecidableEq, Repr

inductive BranchOp
  | beq | bne | blt | bge | bltu | bgeu
deriving DecidableEq, Repr

inductive LoadOp
  | lb | lh | lw | lbu | lhu
deriving DecidableEq, Repr

inductive StoreOp
  | sb | sh | sw
deriving DecidableEq, Repr

/-- One instruction with its operands. FENCE keeps the fields the base set leaves reserved. -/
inductive Instr
  | op (o : RegOp) (rd rs1 rs2 : Reg)
  | opImm (o : ImmOp) (rd rs1 : Reg) (imm : BitVec 12)
  | shift (o : ShiftOp) (rd rs1 : Reg) (shamt : BitVec 5)
  | upper (o : UpperOp) (rd : Reg) (imm : BitVec 20)
  | jal (rd : Reg) (imm : BitVec 20)
  | jalr (rd rs1 : Reg) (imm : BitVec 12)
  | branch (o : BranchOp) (rs1 rs2 : Reg) (imm : BitVec 12)
  | load (o : LoadOp) (rd rs1 : Reg) (imm : BitVec 12)
  | store (o : StoreOp) (rs1 rs2 : Reg) (imm : BitVec 12)
  | fence (rd rs1 : Reg) (imm : BitVec 12)
  | ecall
  | ebreak
deriving DecidableEq, Repr

def Instr.rd? : Instr → Option Reg
  | .op _ rd .. | .opImm _ rd .. | .shift _ rd .. | .upper _ rd _ | .jal rd _ | .jalr rd ..
  | .load _ rd .. | .fence rd .. => some rd
  | _ => none

def Instr.rs1? : Instr → Option Reg
  | .op _ _ rs1 _ | .opImm _ _ rs1 _ | .shift _ _ rs1 _ | .jalr _ rs1 _ | .branch _ rs1 ..
  | .load _ _ rs1 _ | .store _ rs1 .. | .fence _ rs1 _ => some rs1
  | _ => none

def Instr.rs2? : Instr → Option Reg
  | .op _ _ _ rs2 | .branch _ _ rs2 _ | .store _ _ rs2 _ => some rs2
  | _ => none

/-! ## Operation selectors -/

def RegOp.all : List RegOp := [.add, .sub, .sll, .slt, .sltu, .xor, .srl, .sra, .or, .and]

def RegOp.funct3 : RegOp → BitVec 3
  | .add | .sub => 0
  | .sll => 1
  | .slt => 2
  | .sltu => 3
  | .xor => 4
  | .srl | .sra => 5
  | .or => 6
  | .and => 7

def RegOp.funct7 : RegOp → BitVec 7
  | .sub | .sra => 0x20
  | _ => 0

def ImmOp.all : List ImmOp := [.addi, .slti, .sltiu, .xori, .ori, .andi]

def ImmOp.funct3 : ImmOp → BitVec 3
  | .addi => 0
  | .slti => 2
  | .sltiu => 3
  | .xori => 4
  | .ori => 6
  | .andi => 7

def ShiftOp.all : List ShiftOp := [.slli, .srli, .srai]

def ShiftOp.funct3 : ShiftOp → BitVec 3
  | .slli => 1
  | .srli | .srai => 5

def ShiftOp.funct7 : ShiftOp → BitVec 7
  | .srai => 0x20
  | _ => 0

def UpperOp.opcode : UpperOp → BitVec 7
  | .lui => 0x37#7
  | .auipc => 0x17#7

def BranchOp.all : List BranchOp := [.beq, .bne, .blt, .bge, .bltu, .bgeu]

def BranchOp.funct3 : BranchOp → BitVec 3
  | .beq => 0
  | .bne => 1
  | .blt => 4
  | .bge => 5
  | .bltu => 6
  | .bgeu => 7

def LoadOp.all : List LoadOp := [.lb, .lh, .lw, .lbu, .lhu]

def LoadOp.funct3 : LoadOp → BitVec 3
  | .lb => 0
  | .lh => 1
  | .lw => 2
  | .lbu => 4
  | .lhu => 5

def StoreOp.all : List StoreOp := [.sb, .sh, .sw]

def StoreOp.funct3 : StoreOp → BitVec 3
  | .sb => 0
  | .sh => 1
  | .sw => 2

/-! ## Layouts, most significant bit first -/

def rFormat (funct7 : BitVec 7) (rs2 rs1 : Reg) (funct3 : BitVec 3) (rd : Reg)
    (opcode : BitVec 7) : Word :=
  funct7 ++ rs2 ++ rs1 ++ funct3 ++ rd ++ opcode

def iFormat (imm : BitVec 12) (rs1 : Reg) (funct3 : BitVec 3) (rd : Reg)
    (opcode : BitVec 7) : Word :=
  imm ++ rs1 ++ funct3 ++ rd ++ opcode

def sFormat (imm : BitVec 12) (rs2 rs1 : Reg) (funct3 : BitVec 3) (opcode : BitVec 7) : Word :=
  imm.extractLsb' 5 7 ++ rs2 ++ rs1 ++ funct3 ++ imm.extractLsb' 0 5 ++ opcode

/-- `imm` holds offset bits 12..1, laid out as `12|10:5` and `4:1|11`. -/
def bFormat (imm : BitVec 12) (rs2 rs1 : Reg) (funct3 : BitVec 3) (opcode : BitVec 7) : Word :=
  imm.extractLsb' 11 1 ++ imm.extractLsb' 4 6 ++ rs2 ++ rs1 ++ funct3 ++
    imm.extractLsb' 0 4 ++ imm.extractLsb' 10 1 ++ opcode

def uFormat (imm : BitVec 20) (rd : Reg) (opcode : BitVec 7) : Word := imm ++ rd ++ opcode

/-- `imm` holds offset bits 20..1, laid out as `20|10:1|11|19:12`. -/
def jFormat (imm : BitVec 20) (rd : Reg) (opcode : BitVec 7) : Word :=
  imm.extractLsb' 19 1 ++ imm.extractLsb' 0 10 ++ imm.extractLsb' 10 1 ++ imm.extractLsb' 11 8 ++
    rd ++ opcode

def encode : Instr → Word
  | .op o rd rs1 rs2 => rFormat o.funct7 rs2 rs1 o.funct3 rd 0x33#7
  | .opImm o rd rs1 imm => iFormat imm rs1 o.funct3 rd 0x13#7
  | .shift o rd rs1 shamt => rFormat o.funct7 shamt rs1 o.funct3 rd 0x13#7
  | .upper o rd imm => uFormat imm rd o.opcode
  | .jal rd imm => jFormat imm rd 0x6F#7
  | .jalr rd rs1 imm => iFormat imm rs1 0#3 rd 0x67#7
  | .branch o rs1 rs2 imm => bFormat imm rs2 rs1 o.funct3 0x63#7
  | .load o rd rs1 imm => iFormat imm rs1 o.funct3 rd 0x03#7
  | .store o rs1 rs2 imm => sFormat imm rs2 rs1 o.funct3 0x23#7
  | .fence rd rs1 imm => iFormat imm rs1 0#3 rd 0x0F#7
  | .ecall => iFormat 0 0 0 0 0x73#7
  | .ebreak => iFormat 1 0 0 0 0x73#7

/-! ## Fields of a word -/

def opcodeOf (w : Word) : BitVec 7 := w.extractLsb' 0 7
def rdOf (w : Word) : Reg := w.extractLsb' 7 5
def funct3Of (w : Word) : BitVec 3 := w.extractLsb' 12 3
def rs1Of (w : Word) : Reg := w.extractLsb' 15 5
def rs2Of (w : Word) : Reg := w.extractLsb' 20 5
def funct7Of (w : Word) : BitVec 7 := w.extractLsb' 25 7
def immI (w : Word) : BitVec 12 := w.extractLsb' 20 12
def immS (w : Word) : BitVec 12 := w.extractLsb' 25 7 ++ w.extractLsb' 7 5
def immB (w : Word) : BitVec 12 :=
  w.extractLsb' 31 1 ++ w.extractLsb' 7 1 ++ w.extractLsb' 25 6 ++ w.extractLsb' 8 4
def immU (w : Word) : BitVec 20 := w.extractLsb' 12 20
def immJ (w : Word) : BitVec 20 :=
  w.extractLsb' 31 1 ++ w.extractLsb' 12 8 ++ w.extractLsb' 20 1 ++ w.extractLsb' 21 10

def RegOp.find (f7 : BitVec 7) (f3 : BitVec 3) : Option RegOp :=
  RegOp.all.find? fun o => o.funct7 = f7 ∧ o.funct3 = f3

def ImmOp.find (f3 : BitVec 3) : Option ImmOp := ImmOp.all.find? fun o => o.funct3 = f3

def ShiftOp.find (f7 : BitVec 7) (f3 : BitVec 3) : Option ShiftOp :=
  ShiftOp.all.find? fun o => o.funct7 = f7 ∧ o.funct3 = f3

def BranchOp.find (f3 : BitVec 3) : Option BranchOp := BranchOp.all.find? fun o => o.funct3 = f3

def LoadOp.find (f3 : BitVec 3) : Option LoadOp := LoadOp.all.find? fun o => o.funct3 = f3

def StoreOp.find (f3 : BitVec 3) : Option StoreOp := StoreOp.all.find? fun o => o.funct3 = f3

/-- The instruction a word encodes, `none` for a word outside the base set. -/
def decode (w : Word) : Option Instr :=
  if opcodeOf w = 0x33#7 then
    (RegOp.find (funct7Of w) (funct3Of w)).map fun o => .op o (rdOf w) (rs1Of w) (rs2Of w)
  else if opcodeOf w = 0x13#7 then
    ((ImmOp.find (funct3Of w)).map fun o => .opImm o (rdOf w) (rs1Of w) (immI w)) <|>
      (ShiftOp.find (funct7Of w) (funct3Of w)).map fun o => .shift o (rdOf w) (rs1Of w) (rs2Of w)
  else if opcodeOf w = 0x37#7 then some (.upper .lui (rdOf w) (immU w))
  else if opcodeOf w = 0x17#7 then some (.upper .auipc (rdOf w) (immU w))
  else if opcodeOf w = 0x6F#7 then some (.jal (rdOf w) (immJ w))
  else if opcodeOf w = 0x67#7 then
    if funct3Of w = 0#3 then some (.jalr (rdOf w) (rs1Of w) (immI w)) else none
  else if opcodeOf w = 0x63#7 then
    (BranchOp.find (funct3Of w)).map fun o => .branch o (rs1Of w) (rs2Of w) (immB w)
  else if opcodeOf w = 0x03#7 then
    (LoadOp.find (funct3Of w)).map fun o => .load o (rdOf w) (rs1Of w) (immI w)
  else if opcodeOf w = 0x23#7 then
    (StoreOp.find (funct3Of w)).map fun o => .store o (rs1Of w) (rs2Of w) (immS w)
  else if opcodeOf w = 0x0F#7 then
    if funct3Of w = 0#3 then some (.fence (rdOf w) (rs1Of w) (immI w)) else none
  else if w = 0x00000073#32 then some .ecall
  else if w = 0x00100073#32 then some .ebreak
  else none

end Rv32i
