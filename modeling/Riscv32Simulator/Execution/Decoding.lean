import Riscv32Simulator.Isa.Codec
import Riscv32Simulator.Source.Instruction

/-! `instruction_decode` and the RV32I layouts select the same operation and the same immediate. -/

namespace Riscv32
open Rv32i (Instr Word RegOp ImmOp ShiftOp UpperOp BranchOp LoadOp StoreOp opcodeOf rdOf funct3Of
  rs1Of rs2Of funct7Of immI immS immB immU immJ)

def regKind : RegOp → InstructionKind
  | .add => .add
  | .sub => .sub
  | .sll => .sll
  | .slt => .slt
  | .sltu => .sltu
  | .xor => .xor
  | .srl => .srl
  | .sra => .sra
  | .or => .or
  | .and => .and

def immKind : ImmOp → InstructionKind
  | .addi => .addi
  | .slti => .slti
  | .sltiu => .sltiu
  | .xori => .xori
  | .ori => .ori
  | .andi => .andi

def shiftKind : ShiftOp → InstructionKind
  | .slli => .slli
  | .srli => .srli
  | .srai => .srai

def upperKind : UpperOp → InstructionKind
  | .lui => .lui
  | .auipc => .auipc

def branchKind : BranchOp → InstructionKind
  | .beq => .beq
  | .bne => .bne
  | .blt => .blt
  | .bge => .bge
  | .bltu => .bltu
  | .bgeu => .bgeu

def loadKind : LoadOp → InstructionKind
  | .lb => .lb
  | .lh => .lh
  | .lw => .lw
  | .lbu => .lbu
  | .lhu => .lhu

def storeKind : StoreOp → InstructionKind
  | .sb => .sb
  | .sh => .sh
  | .sw => .sw

def kindOf : Instr → InstructionKind
  | .op o .. => regKind o
  | .opImm o .. => immKind o
  | .shift o .. => shiftKind o
  | .upper o .. => upperKind o
  | .jal .. => .jal
  | .jalr .. => .jalr
  | .branch o .. => branchKind o
  | .load o .. => loadKind o
  | .store o .. => storeKind o
  | .fence .. => .fence
  | .ecall => .ecall
  | .ebreak => .ebreak

theorem kindOf_ne_unknown (i : Instr) : kindOf i ≠ .unknown := by
  cases i with
  | op r | opImm r | shift r | upper r | branch r | load r | store r => cases r <;> nofun
  | jal | jalr | fence | ecall | ebreak => nofun

def formatOf : Instr → InstructionFormat
  | .op .. => .r
  | .upper .. => .u
  | .jal .. => .j
  | .branch .. => .b
  | .store .. => .s
  | _ => .i

/-- The immediate the decoder reports for an instruction, extended to 32 bits. -/
def immediateOf : Instr → Word
  | .opImm _ _ _ imm | .jalr _ _ imm | .load _ _ _ imm | .store _ _ _ imm => imm.signExtend 32
  | .shift _ _ _ shamt => shamt.setWidth 32
  | .upper _ _ imm => imm ++ 0#12
  | .jal _ imm => (imm ++ 0#1 : BitVec 21).signExtend 32
  | .branch _ _ _ imm => (imm ++ 0#1 : BitVec 13).signExtend 32
  | .op .. | .fence .. | .ecall | .ebreak => 0

/-! ## Fields -/

theorem setWidth_shift_and (w : Word) (k n : ℕ) {m : Word} (hm : m.toNat = 2 ^ n - 1) :
    ((w >>> k) &&& m).setWidth 8 = (w.extractLsb' k n).setWidth 8 := by
  apply BitVec.eq_of_toNat_eq
  rw [BitVec.toNat_setWidth, BitVec.toNat_setWidth, BitVec.toNat_and, hm,
    Nat.and_two_pow_sub_one_eq_mod, BitVec.extractLsb'_toNat, BitVec.toNat_ushiftRight]

theorem extractFields_eq (w : Word) : instructionExtractFields w =
    { raw := w, opcode := (opcodeOf w).setWidth 8, rd := (rdOf w).setWidth 8,
      funct3 := (funct3Of w).setWidth 8, rs1 := (rs1Of w).setWidth 8, rs2 := (rs2Of w).setWidth 8,
      funct7 := (funct7Of w).setWidth 8 } := by
  have h0 : (w &&& 0x7F#32).setWidth 8 = (opcodeOf w).setWidth 8 := by
    have hh : ((w >>> 0) &&& 0x7F#32).setWidth 8 = (w.extractLsb' 0 7).setWidth 8 :=
      setWidth_shift_and w 0 7 rfl
    rwa [BitVec.ushiftRight_zero] at hh
  rw [instructionExtractFields, h0, setWidth_shift_and w 7 5 rfl, setWidth_shift_and w 12 3 rfl,
    setWidth_shift_and w 15 5 rfl, setWidth_shift_and w 20 5 rfl, setWidth_shift_and w 25 7 rfl]
  rfl

theorem instructionDecode_fields (w : Word) :
    (instructionDecode w).fields = instructionExtractFields w := by
  simp only [instructionDecode, apply_ite DecodedInstruction.fields, ite_self]

theorem setWidth_eight_eq_iff {n : ℕ} (hn : n ≤ 8) (x y : BitVec n) :
    x.setWidth 8 = y.setWidth 8 ↔ x = y := by
  have hp : 2 ^ n ≤ 2 ^ 8 := Nat.pow_le_pow_right (by decide) hn
  have hx := x.isLt
  have hy := y.isLt
  rw [← BitVec.toNat_inj, ← BitVec.toNat_inj, BitVec.toNat_setWidth, BitVec.toNat_setWidth,
    Nat.mod_eq_of_lt (by omega), Nat.mod_eq_of_lt (by omega)]

/-! ## Immediates -/

theorem xor_sub_of_disjoint {v s : Word} (h : v &&& s = 0#32) : (v ^^^ s) - s = v := by
  have hx : v ^^^ s = v + s := by
    rw [BitVec.add_eq_or_of_and_eq_zero _ _ h]
    ext i hi
    have hb := congrArg (fun b => b.getLsbD i) h
    simp only [BitVec.getLsbD_and, BitVec.getLsbD_zero] at hb
    simp only [← BitVec.getLsbD_eq_getElem, BitVec.getLsbD_xor, BitVec.getLsbD_or]
    cases hv : v.getLsbD i <;> cases hs : s.getLsbD i <;> simp_all
  rw [hx, BitVec.add_sub_cancel]

theorem signBit_and_eq_zero {v : Word} {k : ℕ} (h : v.getLsbD k = false) :
    v &&& (1#32 <<< k) = 0#32 := by
  apply BitVec.eq_of_getLsbD_eq
  intro i hi
  simp only [BitVec.getLsbD_and, BitVec.getLsbD_shiftLeft, BitVec.getLsbD_one, BitVec.getLsbD_zero]
  by_cases hk : i = k
  · subst hk
    rw [h, Bool.false_and]
  · have hd : decide (0 < 32 ∧ i - k = 0 ∧ ¬ i < k) = false := by
      rw [decide_eq_false_iff_not]
      omega
    grind

theorem signExtend_setWidth {n : ℕ} (v : BitVec n) (h0 : 0 < n) (hn : n ≤ 32) :
    signExtend (v.setWidth 32) n = v.signExtend 32 := by
  rw [signExtend]
  have hbit : (v.setWidth 32).getLsbD (n - 1) = v.msb := by
    rw [BitVec.getLsbD_setWidth, BitVec.msb_eq_getLsbD_last, decide_eq_true (by omega), Bool.true_and]
  cases hm : v.msb with
  | false =>
    rw [xor_sub_of_disjoint (signBit_and_eq_zero (hbit.trans hm)),
      BitVec.signExtend_eq_setWidth_of_msb_false hm]
  | true =>
    have hclear : (v.setWidth 32 ^^^ 1#32 <<< (n - 1)).getLsbD (n - 1) = false := by
      rw [BitVec.getLsbD_xor, hbit, hm, BitVec.getLsbD_shiftLeft]
      simp; omega
    have hx := xor_sub_of_disjoint (signBit_and_eq_zero hclear)
    rw [BitVec.xor_assoc, BitVec.xor_self, BitVec.xor_zero] at hx
    -- the sign bit is set, so flipping it and subtracting it are the same
    rw [← hx]
    have hp : 2 ^ n = 2 * 2 ^ (n - 1) := by rw [← pow_succ', Nat.sub_add_cancel h0]
    have hle : 2 ^ n ≤ 2 ^ 32 := Nat.pow_le_pow_right (by decide) hn
    have hlow : 2 ^ (n - 1) ≤ v.toNat := by
      simpa [BitVec.msb_eq_decide] using hm
    have hv := v.isLt
    have hs : (1#32 <<< (n - 1)).toNat = 2 ^ (n - 1) := by
      rw [BitVec.toNat_shiftLeft, BitVec.toNat_ofNat, Nat.shiftLeft_eq, Nat.one_mod_eq_one.mpr (by decide),
        one_mul, Nat.mod_eq_of_lt (by omega)]
    apply BitVec.eq_of_toNat_eq
    rw [BitVec.toNat_signExtend, hm, if_pos rfl, BitVec.toNat_sub, BitVec.toNat_sub, hs,
      BitVec.toNat_setWidth]
    omega

/-! ## The decoder -/

theorem signExtend_immI (w : Word) : signExtend (w >>> 20) 12 = (immI w).signExtend 32 := by
  rw [← signExtend_setWidth _ (by decide) (by decide)]
  congr 1
  apply BitVec.eq_of_getLsbD_eq
  intro i hi
  simp only [immI, BitVec.getLsbD_setWidth, BitVec.getLsbD_extractLsb', BitVec.getLsbD_ushiftRight]
  interval_cases i <;> simp

theorem signExtend_immS (w : Word) :
    signExtend (((w >>> 20) &&& 0xFE0#32) ||| ((w >>> 7) &&& 0x1F#32)) 12 =
      (immS w).signExtend 32 := by
  rw [← signExtend_setWidth _ (by decide) (by decide)]
  congr 1
  apply BitVec.eq_of_getLsbD_eq
  intro i hi
  simp only [immS, BitVec.getLsbD_setWidth, BitVec.getLsbD_append, BitVec.getLsbD_extractLsb',
    BitVec.getLsbD_or, BitVec.getLsbD_and, BitVec.getLsbD_ushiftRight]
  interval_cases i <;> simp

theorem signExtend_immB (w : Word) :
    signExtend (((w >>> 31) <<< 12) ||| ((w <<< 4) &&& 0x800#32) ||| ((w >>> 20) &&& 0x7E0#32) |||
      ((w >>> 7) &&& 0x1E#32)) 13 = (immB w ++ 0#1 : BitVec 13).signExtend 32 := by
  rw [← signExtend_setWidth _ (by decide) (by decide)]
  congr 1
  apply BitVec.eq_of_getLsbD_eq
  intro i hi
  simp only [immB, BitVec.getLsbD_setWidth, BitVec.getLsbD_append, BitVec.getLsbD_extractLsb',
    BitVec.getLsbD_or, BitVec.getLsbD_and, BitVec.getLsbD_ushiftRight, BitVec.getLsbD_shiftLeft]
  interval_cases i <;> simp

theorem signExtend_immJ (w : Word) :
    signExtend (((w >>> 31) <<< 20) ||| (w &&& 0xFF000#32) ||| ((w >>> 9) &&& 0x800#32) |||
      ((w >>> 20) &&& 0x7FE#32)) 21 = (immJ w ++ 0#1 : BitVec 21).signExtend 32 := by
  rw [← signExtend_setWidth _ (by decide) (by decide)]
  congr 1
  apply BitVec.eq_of_getLsbD_eq
  intro i hi
  simp only [immJ, BitVec.getLsbD_setWidth, BitVec.getLsbD_append, BitVec.getLsbD_extractLsb',
    BitVec.getLsbD_or, BitVec.getLsbD_and, BitVec.getLsbD_ushiftRight, BitVec.getLsbD_shiftLeft]
  interval_cases i <;> simp

theorem and_immU (w : Word) : w &&& 0xFFFFF000#32 = immU w ++ 0#12 := by
  apply BitVec.eq_of_getLsbD_eq
  intro i hi
  simp only [immU, BitVec.getLsbD_append, BitVec.getLsbD_extractLsb', BitVec.getLsbD_and]
  interval_cases i <;> simp

theorem find_regOp (f7 : BitVec 7) (f3 : BitVec 3) :
    (RegOp.find f7 f3).elim .unknown regKind =
      if f7 = 0#7 then registerOps.getD f3.toNat .unknown
      else if f7 = 0x20#7 ∧ f3 = 0#3 then .sub
      else if f7 = 0x20#7 ∧ f3 = 5#3 then .sra
      else .unknown := by
  by_cases h0 : f7 = 0#7
  · subst h0
    revert f3
    decide
  by_cases h1 : f7 = 0x20#7
  · subst h1
    revert f3
    decide
  have hnone : RegOp.find f7 f3 = none := by
    rw [Option.eq_none_iff_forall_ne_some]
    intro o ho
    obtain ⟨h7, -⟩ := RegOp.find_eq_some.mp ho
    cases o <;> simp_all [RegOp.funct7]
  rw [hnone, if_neg h0, if_neg (fun h => h1 h.1), if_neg (fun h => h1 h.1)]
  rfl

theorem find_immOp (f3 : BitVec 3) :
    (ImmOp.find f3).elim .unknown immKind = immediateOps.getD f3.toNat .unknown := by
  revert f3
  decide

theorem find_shiftOp (f7 : BitVec 7) {f3 : BitVec 3} (h3 : f3 = 1#3 ∨ f3 = 5#3) :
    (ShiftOp.find f7 f3).elim .unknown shiftKind =
      if f7 = 0#7 then if f3 = 1#3 then .slli else .srli
      else if f3 = 5#3 ∧ f7 = 0x20#7 then .srai
      else immediateOps.getD f3.toNat .unknown := by
  by_cases h0 : f7 = 0#7
  · subst h0
    rcases h3 with rfl | rfl <;> decide
  by_cases h1 : f7 = 0x20#7
  · subst h1
    rcases h3 with rfl | rfl <;> decide
  have hnone : ShiftOp.find f7 f3 = none := by
    rw [Option.eq_none_iff_forall_ne_some]
    intro o ho
    obtain ⟨h7, -⟩ := ShiftOp.find_eq_some.mp ho
    cases o <;> simp_all [ShiftOp.funct7]
  rw [hnone, if_neg h0, if_neg (fun h => h1 h.2)]
  rcases h3 with rfl | rfl <;> decide

theorem find_shiftOp_eq_none (f7 : BitVec 7) {f3 : BitVec 3} (h3 : ¬ (f3 = 1#3 ∨ f3 = 5#3)) :
    ShiftOp.find f7 f3 = none := by
  rw [Option.eq_none_iff_forall_ne_some]
  intro o ho
  obtain ⟨-, h⟩ := ShiftOp.find_eq_some.mp ho
  cases o <;> simp_all [ShiftOp.funct3]

theorem find_branchOp (f3 : BitVec 3) :
    (BranchOp.find f3).elim .unknown branchKind = branches.getD f3.toNat .unknown := by
  revert f3
  decide

theorem find_loadOp (f3 : BitVec 3) :
    (LoadOp.find f3).elim .unknown loadKind = loads.getD f3.toNat .unknown := by
  revert f3
  decide

theorem find_storeOp (f3 : BitVec 3) :
    (StoreOp.find f3).elim .unknown storeKind = stores.getD f3.toNat .unknown := by
  revert f3
  decide

theorem immediate_shift (w : Word) :
    ((rs2Of w).setWidth 8).setWidth 32 = (rs2Of w).setWidth 32 := by
  rw [BitVec.setWidth_setWidth (by decide)]

/-- A decoded record and the instruction, if any, that the layouts assign to the same word. -/
structure Agrees (d : DecodedInstruction) (o : Option Instr) : Prop where
  kind : d.kind = o.elim .unknown kindOf
  format : ∀ i ∈ o, d.format = formatOf i
  immediate : ∀ i ∈ o, d.immediate = immediateOf i

theorem Agrees.map {α : Type} {d : DecodedInstruction} {o : Option α} {f : α → Instr}
    (hk : d.kind = o.elim .unknown fun a => kindOf (f a)) (hf : ∀ a, d.format = formatOf (f a))
    (hi : ∀ a, d.immediate = immediateOf (f a)) : Agrees d (o.map f) := by
  cases o with
  | none => exact ⟨hk, by simp, by simp⟩
  | some a => exact ⟨hk, by simpa using hf a, by simpa using hi a⟩

theorem Agrees.some {d : DecodedInstruction} {i : Instr} (hk : d.kind = kindOf i)
    (hf : d.format = formatOf i) (hi : d.immediate = immediateOf i) :
    Agrees d (Option.some i) := ⟨hk, by simpa using hf, by simpa using hi⟩

theorem Agrees.none {d : DecodedInstruction} (hk : d.kind = .unknown) : Agrees d Option.none :=
  ⟨hk, by simp, by simp⟩

theorem instructionDecode_agrees (w : Word) : Agrees (instructionDecode w) (Rv32i.decode w) := by
  have e7 (x y : BitVec 7) : (x.setWidth 8 = y.setWidth 8) = (x = y) :=
    propext (setWidth_eight_eq_iff (by decide) x y)
  have e3 (x y : BitVec 3) : (x.setWidth 8 = y.setWidth 8) = (x = y) :=
    propext (setWidth_eight_eq_iff (by decide) x y)
  have n3 (x : BitVec 3) : (x.setWidth 8).toNat = x.toNat := by
    have hx := x.isLt
    rw [BitVec.toNat_setWidth]
    omega
  rw [instructionDecode, extractFields_eq]
  -- the source compares bytes, the layouts have fields of 7 and 3 bits
  simp only [show opcodeOp = (0x33#7).setWidth 8 from rfl,
    show opcodeOpImm = (0x13#7).setWidth 8 from rfl, show opcodeLui = (0x37#7).setWidth 8 from rfl,
    show opcodeAuipc = (0x17#7).setWidth 8 from rfl, show opcodeJal = (0x6F#7).setWidth 8 from rfl,
    show opcodeJalr = (0x67#7).setWidth 8 from rfl, show opcodeBranch = (0x63#7).setWidth 8 from rfl,
    show opcodeLoad = (0x03#7).setWidth 8 from rfl, show opcodeStore = (0x23#7).setWidth 8 from rfl,
    show opcodeMiscMem = (0x0F#7).setWidth 8 from rfl,
    show opcodeSystem = (0x73#7).setWidth 8 from rfl, show funct7Base = (0#7).setWidth 8 from rfl,
    show funct7Alternate = (0x20#7).setWidth 8 from rfl, show (0#8) = (0#3).setWidth 8 from rfl,
    show (1#8) = (1#3).setWidth 8 from rfl, show (5#8) = (5#3).setWidth 8 from rfl, e7, e3, n3]
  rw [Rv32i.decode]
  by_cases hop : opcodeOf w = 0x33#7
  · rw [if_pos hop, if_pos hop]
    exact Agrees.map ((find_regOp _ _).symm) (fun _ => rfl) (fun _ => rfl)
  rw [if_neg hop, if_neg hop]
  by_cases himm : opcodeOf w = 0x13#7
  · rw [if_pos himm, if_pos himm]
    -- shifts share the opcode of the other immediate operations
    by_cases h3 : funct3Of w = 1#3 ∨ funct3Of w = 5#3
    · obtain ⟨o, ho⟩ : ∃ o : ShiftOp, o.funct3 = funct3Of w := by
        rcases h3 with h3 | h3
        · exact ⟨.slli, h3.symm⟩
        · exact ⟨.srli, h3.symm⟩
      have hnone : ImmOp.find (funct3Of w) = Option.none := by rw [← ho, ImmOp.find_shift]
      rw [if_pos h3, hnone]
      exact Agrees.map ((find_shiftOp _ h3).symm) (fun _ => rfl) (fun _ => immediate_shift w)
    · rw [if_neg h3, find_shiftOp_eq_none _ h3, Option.map_none, Option.orElse_eq_orElse,
        Option.orElse_eq_or, Option.or_none]
      exact Agrees.map ((find_immOp _).symm) (fun _ => rfl) (fun _ => signExtend_immI w)
  rw [if_neg himm, if_neg himm]
  by_cases hlui : opcodeOf w = 0x37#7
  · rw [if_pos (Or.inl hlui), if_pos hlui, if_pos hlui]
    exact Agrees.some rfl rfl (and_immU w)
  rw [if_neg hlui, if_neg hlui]
  by_cases hauipc : opcodeOf w = 0x17#7
  · rw [if_pos (Or.inr hauipc), if_pos hauipc]
    exact Agrees.some rfl rfl (and_immU w)
  rw [if_neg (not_or.mpr ⟨hlui, hauipc⟩), if_neg hauipc]
  by_cases hjal : opcodeOf w = 0x6F#7
  · rw [if_pos hjal, if_pos hjal]
    exact Agrees.some rfl rfl (signExtend_immJ w)
  rw [if_neg hjal, if_neg hjal]
  by_cases hjalr : opcodeOf w = 0x67#7
  · rw [if_pos hjalr, if_pos hjalr]
    by_cases h3 : funct3Of w = 0#3
    · rw [if_pos h3, if_pos h3]
      exact Agrees.some rfl rfl (signExtend_immI w)
    · rw [if_neg h3, if_neg h3]
      exact Agrees.none rfl
  rw [if_neg hjalr, if_neg hjalr]
  by_cases hbranch : opcodeOf w = 0x63#7
  · rw [if_pos hbranch, if_pos hbranch]
    exact Agrees.map ((find_branchOp _).symm) (fun _ => rfl) (fun _ => signExtend_immB w)
  rw [if_neg hbranch, if_neg hbranch]
  by_cases hload : opcodeOf w = 0x03#7
  · rw [if_pos hload, if_pos hload]
    exact Agrees.map ((find_loadOp _).symm) (fun _ => rfl) (fun _ => signExtend_immI w)
  rw [if_neg hload, if_neg hload]
  by_cases hstore : opcodeOf w = 0x23#7
  · rw [if_pos hstore, if_pos hstore]
    exact Agrees.map ((find_storeOp _).symm) (fun _ => rfl) (fun _ => signExtend_immS w)
  rw [if_neg hstore, if_neg hstore]
  by_cases hfence : opcodeOf w = 0x0F#7
  · rw [if_pos hfence, if_pos hfence]
    by_cases h3 : funct3Of w = 0#3
    · rw [if_pos h3, if_pos h3]
      exact Agrees.some rfl rfl rfl
    · rw [if_neg h3, if_neg h3]
      exact Agrees.none rfl
  rw [if_neg hfence, if_neg hfence]
  by_cases hsystem : opcodeOf w = 0x73#7
  · rw [if_pos hsystem]
    by_cases hecall : w = 0x00000073#32
    · rw [if_pos hecall, if_pos hecall]
      exact Agrees.some rfl rfl rfl
    -- `ecall` and `ebreak` are compared as whole words
    rw [if_neg hecall, if_neg hecall]
    by_cases hebreak : w = 0x00100073#32
    · rw [if_pos hebreak, if_pos hebreak]
      exact Agrees.some rfl rfl rfl
    · rw [if_neg hebreak, if_neg hebreak]
      exact Agrees.none rfl
  · rw [if_neg hsystem, if_neg (fun h => hsystem (by rw [h]; rfl)),
      if_neg (fun h => hsystem (by rw [h]; rfl))]
    exact Agrees.none rfl

end Riscv32
