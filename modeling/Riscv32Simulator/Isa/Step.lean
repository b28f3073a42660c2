import Riscv32Simulator.Isa.Instr

/-! One step of an RV32I hart over flat byte memory. `none` means that the instruction does not
retire: an unavailable fetch or access, a misaligned target, ECALL, EBREAK, or no instruction. -/

namespace Rv32i

structure State where
  reg : Reg → Word
  pc : Word
  retired : BitVec 64
  mem : Word → BitVec 8

/-- Register `x0` reads as zero whatever is stored under its number. -/
def State.x (s : State) (r : Reg) : Word := if r = 0 then 0 else s.reg r

def State.setX (s : State) (rd : Reg) (v : Word) : State :=
  if rd = 0 then s else { s with reg := Function.update s.reg rd v }

def State.retire (s : State) (pc : Word) : State := { s with pc := pc, retired := s.retired + 1 }

def State.next (s : State) : State := s.retire (s.pc + 4)

/-! ## Values -/

def RegOp.eval : RegOp → Word → Word → Word
  | .add, a, b => a + b
  | .sub, a, b => a - b
  | .sll, a, b => a <<< (b.toNat % 32)
  | .slt, a, b => if a.toInt < b.toInt then 1 else 0
  | .sltu, a, b => if a.toNat < b.toNat then 1 else 0
  | .xor, a, b => a ^^^ b
  | .srl, a, b => a >>> (b.toNat % 32)
  | .sra, a, b => a.sshiftRight (b.toNat % 32)
  | .or, a, b => a ||| b
  | .and, a, b => a &&& b

def ImmOp.toRegOp : ImmOp → RegOp
  | .addi => .add
  | .slti => .slt
  | .sltiu => .sltu
  | .xori => .xor
  | .ori => .or
  | .andi => .and

def ShiftOp.toRegOp : ShiftOp → RegOp
  | .slli => .sll
  | .srli => .srl
  | .srai => .sra

def BranchOp.taken : BranchOp → Word → Word → Bool
  | .beq, a, b => a = b
  | .bne, a, b => a ≠ b
  | .blt, a, b => a.toInt < b.toInt
  | .bge, a, b => b.toInt ≤ a.toInt
  | .bltu, a, b => a.toNat < b.toNat
  | .bgeu, a, b => b.toNat ≤ a.toNat

def offsetI (imm : BitVec 12) : Word := imm.signExtend 32
def offsetB (imm : BitVec 12) : Word := (imm ++ 0#1 : BitVec 13).signExtend 32
def offsetJ (imm : BitVec 20) : Word := (imm ++ 0#1 : BitVec 21).signExtend 32
def upperValue (imm : BitVec 20) : Word := imm ++ 0#12

/-! ## Memory -/

def LoadOp.width : LoadOp → Nat
  | .lb | .lbu => 1
  | .lh | .lhu => 2
  | .lw => 4

def StoreOp.width : StoreOp → Nat
  | .sb => 1
  | .sh => 2
  | .sw => 4

def halfAt (mem : Word → BitVec 8) (a : Word) : BitVec 16 := mem (a + 1) ++ mem a

def wordAt (mem : Word → BitVec 8) (a : Word) : Word :=
  mem (a + 3) ++ mem (a + 2) ++ mem (a + 1) ++ mem a

def LoadOp.read (mem : Word → BitVec 8) (a : Word) : LoadOp → Word
  | .lb => (mem a).signExtend 32
  | .lh => (halfAt mem a).signExtend 32
  | .lw => wordAt mem a
  | .lbu => (mem a).setWidth 32
  | .lhu => (halfAt mem a).setWidth 32

def StoreOp.write (mem : Word → BitVec 8) (a v : Word) (o : StoreOp) : Word → BitVec 8 := fun b =>
  if (b - a).toNat < o.width then v.extractLsb' (8 * (b - a).toNat) 8 else mem b

def accessible (size : Nat) (a : Word) (n : Nat) : Prop := a.toNat % n = 0 ∧ a.toNat + n ≤ size

instance (size : Nat) (a : Word) (n : Nat) : Decidable (accessible size a n) :=
  inferInstanceAs (Decidable (_ ∧ _))

/-! ## Instructions -/

def State.jump (s : State) (rd : Reg) (target : Word) : Option State :=
  if target.toNat % 4 = 0 then some ((s.setX rd (s.pc + 4)).retire target) else none

def exec (size : Nat) (s : State) : Instr → Option State
  | .op o rd rs1 rs2 => some (s.setX rd (o.eval (s.x rs1) (s.x rs2))).next
  | .opImm o rd rs1 imm => some (s.setX rd (o.toRegOp.eval (s.x rs1) (offsetI imm))).next
  | .shift o rd rs1 shamt =>
    some (s.setX rd (o.toRegOp.eval (s.x rs1) (shamt.setWidth 32))).next
  | .upper .lui rd imm => some (s.setX rd (upperValue imm)).next
  | .upper .auipc rd imm => some (s.setX rd (s.pc + upperValue imm)).next
  | .jal rd imm => s.jump rd (s.pc + offsetJ imm)
  | .jalr rd rs1 imm =>
    s.jump rd ((s.x rs1 + offsetI imm).extractLsb' 1 31 ++ 0#1)
  | .branch o rs1 rs2 imm =>
    if o.taken (s.x rs1) (s.x rs2) then
      if (s.pc + offsetB imm).toNat % 4 = 0 then some (s.retire (s.pc + offsetB imm)) else none
    else some s.next
  | .load o rd rs1 imm =>
    if accessible size (s.x rs1 + offsetI imm) o.width then
      some (s.setX rd (o.read s.mem (s.x rs1 + offsetI imm))).next
    else none
  | .store o rs1 rs2 imm =>
    if accessible size (s.x rs1 + offsetI imm) o.width then
      some { s with mem := o.write s.mem (s.x rs1 + offsetI imm) (s.x rs2) }.next
    else none
  | .fence .. => some s.next
  | .ecall => none
  | .ebreak => none

def step (size : Nat) (s : State) : Option State :=
  if accessible size s.pc 4 then (decode (wordAt s.mem s.pc)).bind (exec size s) else none

end Rv32i
