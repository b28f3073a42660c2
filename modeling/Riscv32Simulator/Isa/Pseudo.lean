import Riscv32Simulator.Isa.Code

/-! The pseudoinstructions `la` and `call`: an address as an offset from the program counter, in two
instructions. -/

namespace Rv32i
open LabelledRun

/-- `%pcrel_hi` and `%pcrel_lo`: the lower half is signed, so the upper one is rounded. -/
def pcrelHi (offset : Word) : BitVec 20 := (offset + 0x800).extractLsb' 12 20
def pcrelLo (offset : Word) : BitVec 12 := offset.extractLsb' 0 12

def la (rd : Reg) (pc symbol : Word) : List Instr :=
  [.upper .auipc rd (pcrelHi (symbol - pc)), .opImm .addi rd rd (pcrelLo (symbol - pc))]

def call (pc symbol : Word) : List Instr :=
  [.upper .auipc 1 (pcrelHi (symbol - pc)), .jalr 1 1 (pcrelLo (symbol - pc))]

theorem pcrel (offset : Word) : upperValue (pcrelHi offset) + offsetI (pcrelLo offset) = offset := by
  have hhi : (upperValue (pcrelHi offset)).toNat = (offset + 0x800).toNat / 4096 * 4096 := by
    rw [upperValue, pcrelHi, BitVec.toNat_append, BitVec.extractLsb'_toNat]
    rw [show (0#12).toNat = 0 from rfl, Nat.or_zero, Nat.shiftLeft_eq, Nat.shiftRight_eq_div_pow]
    have := (offset + 0x800).isLt
    omega
  have hlo : (offsetI (pcrelLo offset)).toNat =
      if 2048 ≤ offset.toNat % 4096 then offset.toNat % 4096 + (2 ^ 32 - 2 ^ 12)
      else offset.toNat % 4096 := by
    rw [offsetI, pcrelLo, BitVec.toNat_signExtend, BitVec.msb_eq_decide, BitVec.toNat_setWidth,
      BitVec.extractLsb'_toNat]
    simp only [Nat.shiftRight_zero, decide_eq_true_eq]
    split_ifs <;> omega
  refine BitVec.eq_of_toNat_eq ?_
  rw [BitVec.toNat_add, hhi, hlo, BitVec.toNat_add, show (0x800 : Word).toNat = 2048 from rfl]
  have := offset.isLt
  split_ifs <;> omega

theorem Holds.append {mem : Word → BitVec 8} {l : Word} {is js : List Instr}
    (h : Holds mem l (is ++ js)) :
    Holds mem l is ∧ Holds mem (l + BitVec.ofNat 32 (4 * is.length)) js := by
  constructor
  · intro k i hi
    exact h k i (List.getElem?_append_left (List.getElem?_eq_some_iff.mp hi).1 ▸ hi)
  · intro k i hi
    have hk : (is ++ js)[is.length + k]? = some i := by
      rw [List.getElem?_append_right (Nat.le_add_right ..), Nat.add_sub_cancel_left, hi]
    rw [BitVec.add_assoc, ← BitVec.ofNat_add, ← Nat.mul_add]
    exact h _ i hk

section Pairs

variable {size : ℕ} {s : State} {symbol : Word}

theorem Run.pair {u t : State} {i j : Instr} (hal : s.pc.toNat % 4 = 0) (hin : s.pc.toNat + 8 ≤ size)
    (h : Holds s.mem s.pc [i, j]) (hfirst : exec size s i = some u)
    (hpc : u.pc = s.pc + 4) (hmem : u.mem = s.mem) (hsecond : exec size u j = some t) :
    Run (traced size) s [s.pc, s.pc + 4] t := by
  have h0 : wordAt s.mem s.pc = encode i := by
    rw [← h 0 i rfl]
    exact congrArg _ (BitVec.add_zero s.pc).symm
  have h1 : wordAt u.mem u.pc = encode j := by
    rw [hmem, hpc]
    exact h 1 j rfl
  have hacc : accessible size u.pc 4 := by
    rw [hpc]
    constructor <;> bv_omega
  rw [← hpc]
  exact (Run.instr ⟨hal, by omega⟩ h0 hfirst).append (Run.instr hacc h1 hsecond)

theorem exec_auipc {rd : Reg} (hrd : rd ≠ 0) (imm : BitVec 20) :
    exec size s (.upper .auipc rd imm) = some
      { s with
        reg := Function.update s.reg rd (s.pc + upperValue imm)
        pc := s.pc + 4
        retired := s.retired + 1 } := by
  rw [exec, State.setX, if_neg hrd]
  rfl

theorem Run.la {rd : Reg} (hrd : rd ≠ 0) (hal : s.pc.toNat % 4 = 0) (hin : s.pc.toNat + 8 ≤ size)
    (h : Holds s.mem s.pc (la rd s.pc symbol)) :
    Run (traced size) s [s.pc, s.pc + 4]
      { s with
        reg := Function.update s.reg rd symbol
        pc := s.pc + 8
        retired := s.retired + 2 } := by
  refine Run.pair hal hin h (exec_auipc hrd _) rfl rfl ?_
  have hvalue : s.pc + upperValue (pcrelHi (symbol - s.pc)) + offsetI (pcrelLo (symbol - s.pc)) =
      symbol := by
    rw [BitVec.add_assoc, pcrel]
    bv_omega
  rw [exec, State.setX, if_neg hrd, State.x, if_neg hrd]
  dsimp only
  rw [Function.update_self, Function.update_idem, ImmOp.toRegOp, RegOp.eval, hvalue, State.next,
    State.retire, BitVec.add_assoc, BitVec.add_assoc]
  rfl

theorem Run.call (hal : s.pc.toNat % 4 = 0) (hin : s.pc.toNat + 8 ≤ size)
    (hsymbol : symbol.toNat % 4 = 0) (h : Holds s.mem s.pc (call s.pc symbol)) :
    Run (traced size) s [s.pc, s.pc + 4]
      { s with
        reg := Function.update s.reg 1 (s.pc + 8)
        pc := symbol
        retired := s.retired + 2 } := by
  refine Run.pair hal hin h (exec_auipc (by decide) _) rfl rfl ?_
  have hvalue : s.pc + upperValue (pcrelHi (symbol - s.pc)) + offsetI (pcrelLo (symbol - s.pc)) =
      symbol := by
    rw [BitVec.add_assoc, pcrel]
    bv_omega
  have htarget : (symbol.extractLsb' 1 31 ++ 0#1 : Word) = symbol := by
    refine BitVec.eq_of_toNat_eq ?_
    rw [BitVec.toNat_append, BitVec.extractLsb'_toNat, show (0#1).toNat = 0 from rfl, Nat.or_zero,
      Nat.shiftLeft_eq, Nat.shiftRight_eq_div_pow]
    omega
  rw [exec, State.x, if_neg (by decide)]
  dsimp only
  rw [Function.update_self, hvalue, htarget, State.jump, if_pos hsymbol, State.setX,
    if_neg (by decide)]
  dsimp only
  rw [Function.update_idem, State.retire, BitVec.add_assoc, BitVec.add_assoc]
  rfl

end Pairs

end Rv32i
