import Riscv32Simulator.Execution.Decoding
import Riscv32Simulator.Isa.Step
import Riscv32Simulator.Source.Cpu

/-! The `switch` of `execute` computes the values and targets of the RV32I operations. -/

namespace Riscv32
open Rv32i (Instr Word RegOp ImmOp ShiftOp BranchOp LoadOp StoreOp offsetI offsetB offsetJ upperValue)

/-! ## Helpers of `cpu.c` -/

theorem add32_eq (a b : Word) : add32 a b = a + b := by
  apply BitVec.eq_of_toNat_eq
  rw [add32, BitVec.toNat_setWidth, BitVec.toNat_add, BitVec.toNat_add, BitVec.toNat_setWidth,
    BitVec.toNat_setWidth]
  omega

theorem sub64_eq (a b : Word) : (a.setWidth 64 - b.setWidth 64).setWidth 32 = a - b := by
  apply BitVec.eq_of_toNat_eq
  rw [BitVec.toNat_setWidth, BitVec.toNat_sub, BitVec.toNat_sub, BitVec.toNat_setWidth,
    BitVec.toNat_setWidth]
  omega

theorem shiftLeft64_eq (a : Word) (n : ℕ) : (a.setWidth 64 <<< n).setWidth 32 = a <<< n := by
  apply BitVec.eq_of_toNat_eq
  have ha := a.isLt
  rw [BitVec.toNat_setWidth, BitVec.toNat_shiftLeft, BitVec.toNat_shiftLeft, BitVec.toNat_setWidth,
    Nat.mod_eq_of_lt (by omega : a.toNat < 2 ^ 64)]
  exact Nat.mod_mod_of_dvd _ (by decide)

theorem toNat_and_31 (b : Word) : (b &&& 31#32).toNat = b.toNat % 32 := by
  rw [BitVec.toNat_and]
  exact Nat.and_two_pow_sub_one_eq_mod b.toNat 5

theorem xor_signBit (v : Word) : v ^^^ 0x80000000#32 = v + 0x80000000#32 := by
  cases hb : v.getLsbD 31 with
  | false =>
    have h : v &&& 0x80000000#32 = 0#32 := signBit_and_eq_zero hb
    exact eq_add_of_sub_eq (xor_sub_of_disjoint h)
  | true =>
    have hclear : (v ^^^ 0x80000000#32).getLsbD 31 = false := by
      rw [BitVec.getLsbD_xor, hb]
      rfl
    have h : (v ^^^ 0x80000000#32) &&& 0x80000000#32 = 0#32 := signBit_and_eq_zero hclear
    have hx := xor_sub_of_disjoint h
    rw [BitVec.xor_assoc, BitVec.xor_self, BitVec.xor_zero] at hx
    rw [← hx, BitVec.sub_eq_add_neg, show -0x80000000#32 = 0x80000000#32 from rfl]

theorem toNat_xor_signBit (v : Word) : ((v ^^^ 0x80000000#32).toNat : ℤ) = v.toInt + 2 ^ 31 := by
  have hv := v.isLt
  rw [xor_signBit, BitVec.toNat_add, BitVec.toInt_eq_toNat_cond, BitVec.toNat_ofNat]
  split_ifs <;> omega

theorem signedLess_eq (a b : Word) : signedLess a b = decide (a.toInt < b.toInt) := by
  have ha := toNat_xor_signBit a
  have hb := toNat_xor_signBit b
  rw [signedLess, decide_eq_decide, BitVec.lt_def]
  omega

theorem and_bit_ne_zero (v : Word) {k : ℕ} (hk : k < 32) :
    v &&& (1#32 <<< k) ≠ 0#32 ↔ v.getLsbD k = true := by
  constructor
  · intro h
    by_contra hb
    exact h (signBit_and_eq_zero (Bool.eq_false_iff.mpr hb))
  · intro hb h
    have hz := congrArg (fun x => x.getLsbD k) h
    rw [BitVec.getLsbD_and, hb, BitVec.getLsbD_shiftLeft] at hz
    simp [hk] at hz

theorem and_signBit (v : Word) : v &&& 0x80000000#32 ≠ 0#32 ↔ v.msb = true :=
  and_bit_ne_zero v (by decide : 31 < 32)

theorem arithmeticRight_eq (a b : Word) : arithmeticRight a b = a.sshiftRight (b.toNat % 32) := by
  have hn : b.toNat % 32 < 32 := Nat.mod_lt _ (by decide)
  unfold arithmeticRight
  simp only [toNat_and_31, and_signBit]
  generalize b.toNat % 32 = n at hn
  by_cases h0 : n = 0
  · rw [if_pos h0, h0, BitVec.sshiftRight_zero]
  rw [if_neg h0]
  cases hm : a.msb with
  | false => rw [if_neg nofun, BitVec.sshiftRight_eq_of_msb_false hm]
  | true =>
    rw [if_pos rfl, show (0xFFFFFFFF#64) = (BitVec.allOnes 32).setWidth 64 from rfl]
    apply BitVec.eq_of_getLsbD_eq
    intro i hi
    simp only [BitVec.getLsbD_setWidth, BitVec.getLsbD_or, BitVec.getLsbD_shiftLeft,
      BitVec.getLsbD_ushiftRight, BitVec.getLsbD_sshiftRight, BitVec.getLsbD_allOnes, hm]
    grind

theorem and_not_one (v : Word) : v &&& ~~~1#32 = v.extractLsb' 1 31 ++ 0#1 := by
  apply BitVec.eq_of_getLsbD_eq
  intro i hi
  simp only [BitVec.getLsbD_append, BitVec.getLsbD_extractLsb', BitVec.getLsbD_and,
    BitVec.getLsbD_not]
  interval_cases i <;> simp

theorem flag_decide (p : Prop) [Decidable p] : flag (decide p) = if p then 1#32 else 0#32 := by
  by_cases h : p <;> simp [flag, h]

/-! ## The switch -/

/-- The locals `execute` has after its `switch`, in terms of the reference values. -/
def operationOf (pc left right : Word) : Instr → Except (CpuStepResult × CpuTrapCause × Word) Operation
  | .op r .. => .ok { nextPc := pc + 4, value := r.eval left right }
  | .opImm r _ _ imm => .ok { nextPc := pc + 4, value := r.toRegOp.eval left (offsetI imm) }
  | .shift r _ _ shamt => .ok { nextPc := pc + 4, value := r.toRegOp.eval left (shamt.setWidth 32) }
  | .upper .lui _ imm => .ok { nextPc := pc + 4, value := upperValue imm }
  | .upper .auipc _ imm => .ok { nextPc := pc + 4, value := pc + upperValue imm }
  | .jal _ imm => .ok { nextPc := pc + offsetJ imm, value := pc + 4, transfer := true }
  | .jalr _ _ imm => .ok
    { nextPc := (left + offsetI imm).extractLsb' 1 31 ++ 0#1, value := pc + 4, transfer := true }
  | .branch r .. => .ok { nextPc := pc + 4, transfer := r.taken left right, writesRegister := false }
  | .load r .. => .ok { nextPc := pc + 4, width := r.width }
  | .store r .. => .ok { nextPc := pc + 4, width := r.width, store := true, writesRegister := false }
  | .fence .. => .ok { nextPc := pc + 4, writesRegister := false }
  | .ecall => .error (.ecall, .userEcall, 0)
  | .ebreak => .error (.breakpoint, .breakpoint, pc)

theorem operation_eq {d : DecodedInstruction} {i : Instr} (hk : d.kind = kindOf i)
    (hi : d.immediate = immediateOf i) (pc word left right : Word) :
    operation d pc word left right = operationOf pc left right i := by
  have hnext : add32 pc (BitVec.ofNat 32 cpuInstructionSize) = pc + 4 := add32_eq pc 4
  rw [operation, hk, hnext, hi]
  cases i with
  | op r => cases r <;> simp only [kindOf, regKind, operationOf, RegOp.eval, add32_eq, sub64_eq,
      shiftLeft64_eq, toNat_and_31, signedLess_eq, arithmeticRight_eq, flag_decide, BitVec.lt_def] <;>
      rfl
  | opImm r => cases r <;> simp only [kindOf, immKind, operationOf, ImmOp.toRegOp, RegOp.eval,
      add32_eq, signedLess_eq, flag_decide, BitVec.lt_def, immediateOf, offsetI] <;> rfl
  | shift r rd rs1 shamt =>
    have hs : (shamt.setWidth 32).toNat % 32 = (shamt.setWidth 32).toNat := by
      have := shamt.isLt
      rw [BitVec.toNat_setWidth]
      omega
    cases r <;> simp only [kindOf, shiftKind, operationOf, ShiftOp.toRegOp, RegOp.eval,
      shiftLeft64_eq, arithmeticRight_eq, immediateOf, hs]
  | upper r => cases r <;> simp only [kindOf, upperKind, operationOf, add32_eq, immediateOf, upperValue]
  | jal => simp only [kindOf, operationOf, add32_eq, immediateOf, offsetJ]
  | jalr => simp only [kindOf, operationOf, add32_eq, immediateOf, offsetI, and_not_one]
  | branch r =>
    cases r
    case bge =>
      simp only [kindOf, branchKind, operationOf, BranchOp.taken, signedLess_eq, ← decide_not, not_lt]
    all_goals simp only [kindOf, branchKind, operationOf, BranchOp.taken, signedLess_eq,
      BitVec.lt_def, BitVec.le_def, ge_iff_le]
  | load r => cases r <;> rfl
  | store r => cases r <;> rfl
  | fence | ecall | ebreak => rfl

end Riscv32
