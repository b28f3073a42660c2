import Riscv32Simulator.Execution.Decoding
import Riscv32Simulator.Source.Encoding

/-! Decoding inverts encoding: operands come back from the standard encoding of an operation, and a
decoded word is the standard encoding of what was decoded. -/

namespace Riscv32
open Rv32i (Instr Word RegOp ImmOp ShiftOp UpperOp BranchOp LoadOp StoreOp opcodeOf rdOf funct3Of
  rs1Of rs2Of funct7Of immI rFormat iFormat sFormat bFormat uFormat jFormat)

/-- Operations by the group that shares a layout and a meaning of its operands. -/
theorem kind_groups {motive : InstructionKind → Prop} (unknown : motive .unknown)
    (reg : ∀ r, motive (regKind r)) (imm : ∀ r, motive (immKind r))
    (shift : ∀ r, motive (shiftKind r)) (upper : ∀ r, motive (upperKind r)) (jal : motive .jal)
    (jalr : motive .jalr) (branch : ∀ r, motive (branchKind r)) (load : ∀ r, motive (loadKind r))
    (store : ∀ r, motive (storeKind r)) (fence : motive .fence) (ecall : motive .ecall)
    (ebreak : motive .ebreak) (kind : InstructionKind) : motive kind := by
  cases kind with
  | unknown => exact unknown
  | add => exact reg .add
  | sub => exact reg .sub
  | sll => exact reg .sll
  | slt => exact reg .slt
  | sltu => exact reg .sltu
  | xor => exact reg .xor
  | srl => exact reg .srl
  | sra => exact reg .sra
  | or => exact reg .or
  | and => exact reg .and
  | addi => exact imm .addi
  | slti => exact imm .slti
  | sltiu => exact imm .sltiu
  | xori => exact imm .xori
  | ori => exact imm .ori
  | andi => exact imm .andi
  | slli => exact shift .slli
  | srli => exact shift .srli
  | srai => exact shift .srai
  | lui => exact upper .lui
  | auipc => exact upper .auipc
  | jal => exact jal
  | jalr => exact jalr
  | beq => exact branch .beq
  | bne => exact branch .bne
  | blt => exact branch .blt
  | bge => exact branch .bge
  | bltu => exact branch .bltu
  | bgeu => exact branch .bgeu
  | lb => exact load .lb
  | lh => exact load .lh
  | lw => exact load .lw
  | lbu => exact load .lbu
  | lhu => exact load .lhu
  | sb => exact store .sb
  | sh => exact store .sh
  | sw => exact store .sw
  | fence => exact fence
  | ecall => exact ecall
  | ebreak => exact ebreak

/-! ## The encoders produce the layouts -/

theorem encodeR_eq (f7 : BitVec 7) (rs2 rs1 : BitVec 5) (f3 : BitVec 3) (rd : BitVec 5) :
    encodeR (f3.setWidth 32) (f7.setWidth 32) (rd.setWidth 32) (rs1.setWidth 32)
      (rs2.setWidth 32) = rFormat f7 rs2 rs1 f3 rd 0x33#7 := by
  apply BitVec.eq_of_getLsbD_eq
  intro i hi
  simp only [encodeR, rFormat, BitVec.getLsbD_append, BitVec.getLsbD_setWidth, BitVec.getLsbD_or,
    BitVec.getLsbD_shiftLeft]
  interval_cases i <;> simp

theorem encodeI_eq (imm : Word) (rs1 : BitVec 5) (f3 : BitVec 3) (rd : BitVec 5) (oc : BitVec 7) :
    encodeI (oc.setWidth 32) (f3.setWidth 32) (rd.setWidth 32) (rs1.setWidth 32) imm =
      iFormat (imm.setWidth 12) rs1 f3 rd oc := by
  apply BitVec.eq_of_getLsbD_eq
  intro i hi
  simp only [encodeI, iFormat, BitVec.getLsbD_append, BitVec.getLsbD_setWidth, BitVec.getLsbD_or,
    BitVec.getLsbD_and, BitVec.getLsbD_shiftLeft]
  interval_cases i <;> simp

theorem encodeS_eq (imm : Word) (rs2 rs1 : BitVec 5) (f3 : BitVec 3) :
    encodeS (f3.setWidth 32) (rs1.setWidth 32) (rs2.setWidth 32) imm =
      sFormat (imm.setWidth 12) rs2 rs1 f3 0x23#7 := by
  apply BitVec.eq_of_getLsbD_eq
  intro i hi
  simp only [encodeS, sFormat, BitVec.getLsbD_append, BitVec.getLsbD_setWidth, BitVec.getLsbD_or,
    BitVec.getLsbD_and, BitVec.getLsbD_shiftLeft, BitVec.getLsbD_ushiftRight,
    BitVec.getLsbD_extractLsb']
  interval_cases i <;> simp

theorem encodeB_eq (imm : Word) (rs2 rs1 : BitVec 5) (f3 : BitVec 3) :
    encodeB (f3.setWidth 32) (rs1.setWidth 32) (rs2.setWidth 32) imm =
      bFormat (imm.extractLsb' 1 12) rs2 rs1 f3 0x63#7 := by
  apply BitVec.eq_of_getLsbD_eq
  intro i hi
  simp only [encodeB, bFormat, BitVec.getLsbD_append, BitVec.getLsbD_setWidth, BitVec.getLsbD_or,
    BitVec.getLsbD_and, BitVec.getLsbD_shiftLeft, BitVec.getLsbD_ushiftRight,
    BitVec.getLsbD_extractLsb']
  interval_cases i <;> simp

theorem encodeU_eq (imm : Word) (rd : BitVec 5) (oc : BitVec 7) :
    encodeU (oc.setWidth 32) (rd.setWidth 32) imm = uFormat (imm.extractLsb' 12 20) rd oc := by
  apply BitVec.eq_of_getLsbD_eq
  intro i hi
  simp only [encodeU, uFormat, BitVec.getLsbD_append, BitVec.getLsbD_setWidth, BitVec.getLsbD_or,
    BitVec.getLsbD_and, BitVec.getLsbD_shiftLeft, BitVec.getLsbD_extractLsb']
  interval_cases i <;> simp

theorem encodeJ_eq (imm : Word) (rd : BitVec 5) :
    encodeJ (rd.setWidth 32) imm = jFormat (imm.extractLsb' 1 20) rd 0x6F#7 := by
  apply BitVec.eq_of_getLsbD_eq
  intro i hi
  simp only [encodeJ, jFormat, BitVec.getLsbD_append, BitVec.getLsbD_setWidth, BitVec.getLsbD_or,
    BitVec.getLsbD_and, BitVec.getLsbD_shiftLeft, BitVec.getLsbD_ushiftRight,
    BitVec.getLsbD_extractLsb']
  interval_cases i <;> simp

theorem encodeShift_eq {imm : Word} (h : imm.toNat < 32) (f7 : BitVec 7) (rs1 : BitVec 5)
    (f3 : BitVec 3) (rd : BitVec 5) :
    encodeShift (f3.setWidth 32) (f7.setWidth 32) (rd.setWidth 32) (rs1.setWidth 32) imm =
      rFormat f7 (imm.setWidth 5) rs1 f3 rd 0x13#7 := by
  have himm : imm = (imm.setWidth 5).setWidth 32 := by
    apply BitVec.eq_of_toNat_eq
    rw [BitVec.toNat_setWidth, BitVec.toNat_setWidth]
    omega
  conv_lhs => rw [himm]
  apply BitVec.eq_of_getLsbD_eq
  intro i hi
  simp only [encodeShift, rFormat, BitVec.getLsbD_append, BitVec.getLsbD_setWidth,
    BitVec.getLsbD_or, BitVec.getLsbD_shiftLeft]
  interval_cases i <;> simp

/-! ## Each group's encoding is the encoding of an instruction -/

theorem encodeOperation_reg (r : RegOp) (o : Operands) :
    encodeOperation (regKind r) o = Rv32i.encode (.op r o.rd o.rs1 o.rs2) := by
  refine Eq.trans ?_ (encodeR_eq r.funct7 o.rs2 o.rs1 r.funct3 o.rd)
  cases r <;> rfl

theorem encodeOperation_imm (r : ImmOp) (o : Operands) :
    encodeOperation (immKind r) o =
      Rv32i.encode (.opImm r o.rd o.rs1 ((BitVec.ofInt 32 o.imm).setWidth 12)) := by
  refine Eq.trans ?_ (encodeI_eq (BitVec.ofInt 32 o.imm) o.rs1 r.funct3 o.rd 0x13#7)
  cases r <;> rfl

theorem encodeOperation_shift (r : ShiftOp) (o : Operands)
    (h : (BitVec.ofInt 32 o.imm).toNat < 32) : encodeOperation (shiftKind r) o =
      Rv32i.encode (.shift r o.rd o.rs1 ((BitVec.ofInt 32 o.imm).setWidth 5)) := by
  refine Eq.trans ?_ (encodeShift_eq h r.funct7 o.rs1 r.funct3 o.rd)
  cases r <;> rfl

theorem encodeOperation_upper (r : UpperOp) (o : Operands) :
    encodeOperation (upperKind r) o =
      Rv32i.encode (.upper r o.rd ((BitVec.ofInt 32 o.imm).extractLsb' 12 20)) := by
  refine Eq.trans ?_ (encodeU_eq (BitVec.ofInt 32 o.imm) o.rd r.opcode)
  cases r <;> rfl

theorem encodeOperation_branch (r : BranchOp) (o : Operands) :
    encodeOperation (branchKind r) o =
      Rv32i.encode (.branch r o.rs1 o.rs2 ((BitVec.ofInt 32 o.imm).extractLsb' 1 12)) := by
  refine Eq.trans ?_ (encodeB_eq (BitVec.ofInt 32 o.imm) o.rs2 o.rs1 r.funct3)
  cases r <;> rfl

theorem encodeOperation_load (r : LoadOp) (o : Operands) :
    encodeOperation (loadKind r) o =
      Rv32i.encode (.load r o.rd o.rs1 ((BitVec.ofInt 32 o.imm).setWidth 12)) := by
  refine Eq.trans ?_ (encodeI_eq (BitVec.ofInt 32 o.imm) o.rs1 r.funct3 o.rd 0x03#7)
  cases r <;> rfl

theorem encodeOperation_store (r : StoreOp) (o : Operands) :
    encodeOperation (storeKind r) o =
      Rv32i.encode (.store r o.rs1 o.rs2 ((BitVec.ofInt 32 o.imm).setWidth 12)) := by
  refine Eq.trans ?_ (encodeS_eq (BitVec.ofInt 32 o.imm) o.rs2 o.rs1 r.funct3)
  cases r <;> rfl

theorem encodeOperation_jal (o : Operands) :
    encodeOperation .jal o = Rv32i.encode (.jal o.rd ((BitVec.ofInt 32 o.imm).extractLsb' 1 20)) :=
  encodeJ_eq _ _

theorem encodeOperation_jalr (o : Operands) : encodeOperation .jalr o =
    Rv32i.encode (.jalr o.rd o.rs1 ((BitVec.ofInt 32 o.imm).setWidth 12)) :=
  encodeI_eq _ _ 0#3 _ 0x67#7

theorem encodeOperation_fence (o : Operands) : encodeOperation .fence o =
    Rv32i.encode (.fence o.rd o.rs1 ((BitVec.ofInt 32 o.imm).setWidth 12)) :=
  encodeI_eq _ _ 0#3 _ 0x0F#7

/-! ## Immediates in range survive their layout -/

theorem instructionSignedValue_eq (v : Word) : instructionSignedValue v = v.toInt := by
  rw [instructionSignedValue, BitVec.toInt_eq_toNat_cond]
  split_ifs <;> omega

theorem toInt_setWidth_eq_bmod {n : ℕ} (hn : n ≤ 32) (v : Word) :
    (v.setWidth n).toInt = v.toInt.bmod (2 ^ n) := by
  rw [BitVec.toInt_setWidth, BitVec.toInt_eq_toNat_bmod, Int.bmod_bmod_of_dvd (pow_dvd_pow 2 hn)]

theorem signExtend_setWidth_ofInt {n : ℕ} {z : ℤ} (h0 : 0 < n) (hn : n ≤ 32)
    (hlo : -2 ^ (n - 1) ≤ z) (hhi : z < 2 ^ (n - 1)) :
    ((BitVec.ofInt 32 z).setWidth n).signExtend 32 = BitVec.ofInt 32 z := by
  have hpow : (2 : ℤ) ^ (n - 1) ≤ 2 ^ 31 := pow_le_pow_right₀ (by decide) (by omega)
  have hz : (BitVec.ofInt 32 z).toInt = z :=
    BitVec.toInt_ofInt_eq_self (by decide) (by omega) (by omega)
  apply BitVec.eq_of_toInt_eq
  rw [BitVec.toInt_signExtend_of_le hn, toInt_setWidth_eq_bmod hn, hz, ← BitVec.toInt_ofInt,
    BitVec.toInt_ofInt_eq_self h0 hlo hhi]

theorem signExtend_twelve_ofInt {z : ℤ} (h : -2048 ≤ z ∧ z ≤ 2047) :
    ((BitVec.ofInt 32 z).setWidth 12).signExtend 32 = BitVec.ofInt 32 z :=
  signExtend_setWidth_ofInt (by decide) (by decide) (by omega) (by omega)

theorem extractLsb'_append_zero {n : ℕ} {v : Word} (h : v.toNat % 2 = 0) :
    (v.extractLsb' 1 n ++ 0#1 : BitVec (n + 1)) = v.setWidth (n + 1) := by
  have h0 : v.getLsbD 0 = false := by
    rw [BitVec.getLsbD, Nat.testBit_zero, h]
    rfl
  apply BitVec.eq_of_getLsbD_eq
  intro i hi
  rw [BitVec.getLsbD_append, BitVec.getLsbD_setWidth, BitVec.getLsbD_extractLsb']
  rcases i with _ | i
  · simpa using h0
  · simp [Nat.add_comm 1 i]

theorem extractLsb'_append_zeros {v : Word} (h : v.toNat % 4096 = 0) :
    v.extractLsb' 12 20 ++ 0#12 = v := by
  apply BitVec.eq_of_toNat_eq
  have hv := v.isLt
  rw [BitVec.toNat_append, BitVec.extractLsb'_toNat, BitVec.toNat_ofNat, Nat.zero_mod, Nat.or_zero,
    Nat.shiftRight_eq_div_pow, Nat.shiftLeft_eq]
  omega

theorem toNat_ofInt_mod {z : ℤ} {k : ℕ} (hk : k ∣ 2 ^ 32) (h : z % k = 0) :
    (BitVec.ofInt 32 z).toNat % k = 0 := by
  have hmod : z % 2 ^ 32 % k = z % k := Int.emod_emod_of_dvd z (by exact_mod_cast hk)
  rw [BitVec.toNat_ofInt]
  zify
  rw [Int.toNat_of_nonneg (Int.emod_nonneg _ (by decide)), hmod, h]

/-! ## Decoding an encoded operation -/

def usesRd : InstructionFormat → Bool
  | .r | .i | .u | .j => true
  | _ => false

def usesRs1 : InstructionFormat → Bool
  | .r | .i | .s | .b => true
  | _ => false

def usesRs2 : InstructionFormat → Bool
  | .r | .s | .b => true
  | _ => false

/-- A decoded record shows an operation, the registers its format names, and its immediate. -/
structure Shows (d : DecodedInstruction) (kind : InstructionKind) (o : Operands) : Prop where
  operation : d.kind = kind
  format : d.format = operationFormat kind
  rd : usesRd (operationFormat kind) → d.fields.rd = o.rd.setWidth 8
  rs1 : usesRs1 (operationFormat kind) → d.fields.rs1 = o.rs1.setWidth 8
  rs2 : usesRs2 (operationFormat kind) → d.fields.rs2 = o.rs2.setWidth 8
  immediate : d.immediate = BitVec.ofInt 32 o.imm
  signedValue : instructionSignedValue d.immediate = o.imm

theorem formatOf_eq (i : Instr) : formatOf i = operationFormat (kindOf i) := by
  cases i with
  | op r | opImm r | shift r | upper r | branch r | load r | store r => cases r <;> rfl
  | jal | jalr | fence | ecall | ebreak => rfl

theorem shows_of_encode {kind : InstructionKind} {o : Operands} {i : Instr}
    (he : encodeOperation kind o = Rv32i.encode i) (hk : kindOf i = kind)
    (hrd : usesRd (formatOf i) → i.rd? = some o.rd)
    (hrs1 : usesRs1 (formatOf i) → i.rs1? = some o.rs1)
    (hrs2 : usesRs2 (formatOf i) → i.rs2? = some o.rs2)
    (himm : immediateOf i = BitVec.ofInt 32 o.imm) (hz : (BitVec.ofInt 32 o.imm).toInt = o.imm) :
    Shows (instructionDecode (encodeOperation kind o)) kind o := by
  subst hk
  have ha := instructionDecode_agrees (Rv32i.encode i)
  rw [Rv32i.decode_encode] at ha
  have hi := (ha.immediate i rfl).trans himm
  rw [he]
  refine ⟨ha.kind, (ha.format i rfl).trans (formatOf_eq i), ?_, ?_, ?_, hi, ?_⟩
  · intro hu
    rw [instructionDecode_fields, extractFields_eq, Rv32i.rdOf_encode (hrd (formatOf_eq i ▸ hu))]
  · intro hu
    rw [instructionDecode_fields, extractFields_eq, Rv32i.rs1Of_encode (hrs1 (formatOf_eq i ▸ hu))]
  · intro hu
    rw [instructionDecode_fields, extractFields_eq, Rv32i.rs2Of_encode (hrs2 (formatOf_eq i ▸ hu))]
  · rw [hi, instructionSignedValue_eq, hz]

theorem shows_encodeOperation {kind : InstructionKind} (hk : hasOperands kind) {o : Operands}
    (hr : immediateRange kind o.imm) :
    Shows (instructionDecode (encodeOperation kind o)) kind o := by
  have hz : (BitVec.ofInt 32 o.imm).toInt = o.imm ∧ -2 ^ 31 ≤ o.imm ∧ o.imm < 2 ^ 31 := by
    have hb : -2 ^ 31 ≤ o.imm ∧ o.imm < 2 ^ 31 := by
      cases kind <;> simp only [immediateRange, operationFormat] at hr <;> omega
    exact ⟨BitVec.toInt_ofInt_eq_self (by decide) hb.1 hb.2, hb⟩
  induction kind using kind_groups with
  | unknown => exact absurd rfl hk.1
  | fence => exact absurd rfl hk.2.1
  | ecall => exact absurd rfl hk.2.2.1
  | ebreak => exact absurd rfl hk.2.2.2
  | reg r =>
    have h0 : o.imm = 0 := by cases r <;> exact hr
    refine shows_of_encode (encodeOperation_reg r o) rfl (fun _ => rfl) (fun _ => rfl)
      (fun _ => rfl) ?_ hz.1
    rw [h0]
    rfl
  | imm r =>
    have h0 : -2048 ≤ o.imm ∧ o.imm ≤ 2047 := by cases r <;> exact hr
    exact shows_of_encode (encodeOperation_imm r o) rfl (fun _ => rfl) (fun _ => rfl) nofun
      (signExtend_twelve_ofInt h0) hz.1
  | shift r =>
    have h0 : 0 ≤ o.imm ∧ o.imm ≤ 31 := by cases r <;> exact hr
    have hn : (BitVec.ofInt 32 o.imm).toNat < 32 := by
      rw [BitVec.toNat_ofInt]
      omega
    refine shows_of_encode (encodeOperation_shift r o hn) rfl (fun _ => rfl) (fun _ => rfl) nofun ?_ hz.1
    apply BitVec.eq_of_toNat_eq
    rw [immediateOf, BitVec.toNat_setWidth, BitVec.toNat_setWidth]
    omega
  | upper r =>
    have h0 : o.imm % (4096 : ℕ) = 0 := by cases r <;> exact hr.2.2
    exact shows_of_encode (encodeOperation_upper r o) rfl (fun _ => rfl) nofun nofun
      (extractLsb'_append_zeros (toNat_ofInt_mod (by decide) h0)) hz.1
  | jal =>
    have h0 : -1048576 ≤ o.imm ∧ o.imm ≤ 1048574 ∧ o.imm % (2 : ℕ) = 0 := hr
    refine shows_of_encode (encodeOperation_jal o) rfl (fun _ => rfl) nofun nofun ?_ hz.1
    rw [immediateOf, extractLsb'_append_zero (toNat_ofInt_mod (by decide) h0.2.2)]
    exact signExtend_setWidth_ofInt (by decide) (by decide) (by omega) (by omega)
  | jalr =>
    have h0 : -2048 ≤ o.imm ∧ o.imm ≤ 2047 := hr
    exact shows_of_encode (encodeOperation_jalr o) rfl (fun _ => rfl) (fun _ => rfl) nofun
      (signExtend_twelve_ofInt h0) hz.1
  | branch r =>
    have h0 : -4096 ≤ o.imm ∧ o.imm ≤ 4094 ∧ o.imm % (2 : ℕ) = 0 := by cases r <;> exact hr
    refine shows_of_encode (encodeOperation_branch r o) rfl nofun (fun _ => rfl) (fun _ => rfl) ?_ hz.1
    rw [immediateOf, extractLsb'_append_zero (toNat_ofInt_mod (by decide) h0.2.2)]
    exact signExtend_setWidth_ofInt (by decide) (by decide) (by omega) (by omega)
  | load r =>
    have h0 : -2048 ≤ o.imm ∧ o.imm ≤ 2047 := by cases r <;> exact hr
    exact shows_of_encode (encodeOperation_load r o) rfl (fun _ => rfl) (fun _ => rfl) nofun
      (signExtend_twelve_ofInt h0) hz.1
  | store r =>
    have h0 : -2048 ≤ o.imm ∧ o.imm ≤ 2047 := by cases r <;> exact hr
    exact shows_of_encode (encodeOperation_store r o) rfl nofun (fun _ => rfl) (fun _ => rfl)
      (signExtend_twelve_ofInt h0) hz.1

/-! ## Encoding a decoded word -/

theorem setWidth_signExtend (imm : BitVec 12) : (imm.signExtend 32).setWidth 12 = imm := by
  apply BitVec.eq_of_toInt_eq
  rw [toInt_setWidth_eq_bmod (by decide), BitVec.toInt_signExtend_of_le (by decide),
    BitVec.toInt_bmod_cancel]

theorem extractLsb'_signExtend {n : ℕ} (hn : n + 1 ≤ 32) (imm : BitVec n) :
    ((imm ++ 0#1 : BitVec (n + 1)).signExtend 32).extractLsb' 1 n = imm := by
  apply BitVec.eq_of_getLsbD_eq
  intro i hi
  have h0 : ¬ 1 + i < 1 := by omega
  have h1 : 1 + i - 1 = i := by omega
  rw [BitVec.getLsbD_extractLsb', BitVec.getLsbD_signExtend, BitVec.getLsbD_append,
    decide_eq_true hi, decide_eq_true (by omega : 1 + i < 32), if_pos (by omega),
    if_neg h0, h1, Bool.true_and, Bool.true_and]

theorem setWidth_eight_five (r : BitVec 5) : (r.setWidth 8).setWidth 5 = r := by
  rw [BitVec.setWidth_setWidth (by decide), BitVec.setWidth_eq]

theorem decodedOperands_rd (w : Word) : (decodedOperands (instructionDecode w)).rd = rdOf w := by
  rw [decodedOperands, instructionDecode_fields, extractFields_eq]
  exact setWidth_eight_five _

theorem decodedOperands_rs1 (w : Word) : (decodedOperands (instructionDecode w)).rs1 = rs1Of w := by
  rw [decodedOperands, instructionDecode_fields, extractFields_eq]
  exact setWidth_eight_five _

theorem decodedOperands_rs2 (w : Word) : (decodedOperands (instructionDecode w)).rs2 = rs2Of w := by
  rw [decodedOperands, instructionDecode_fields, extractFields_eq]
  exact setWidth_eight_five _

theorem decodedOperands_imm {w : Word} (h : (instructionDecode w).kind ≠ .fence) :
    BitVec.ofInt 32 (decodedOperands (instructionDecode w)).imm =
      (instructionDecode w).immediate := by
  rw [decodedOperands, if_neg h, instructionSignedValue_eq, BitVec.ofInt_toInt]

theorem decodedOperands_imm_fence {w : Word} (h : (instructionDecode w).kind = .fence) :
    (BitVec.ofInt 32 (decodedOperands (instructionDecode w)).imm).setWidth 12 = immI w := by
  rw [decodedOperands, if_pos h, instructionDecode_fields, extractFields_eq]
  apply BitVec.eq_of_toNat_eq
  have h7 : (funct7Of w).toNat = w.toNat / 2 ^ 25 % 2 ^ 7 := by
    rw [funct7Of, BitVec.extractLsb'_toNat, Nat.shiftRight_eq_div_pow]
  have h2 : (rs2Of w).toNat = w.toNat / 2 ^ 20 % 2 ^ 5 := by
    rw [rs2Of, BitVec.extractLsb'_toNat, Nat.shiftRight_eq_div_pow]
  have h12 : (immI w).toNat = w.toNat / 2 ^ 20 % 2 ^ 12 := by
    rw [immI, BitVec.extractLsb'_toNat, Nat.shiftRight_eq_div_pow]
  simp only [BitVec.toNat_setWidth, BitVec.toNat_ofInt, h7, h2, h12]
  omega

theorem encodeOperation_decodedOperands {w : Word} {i : Instr} (h : Rv32i.decode w = some i) :
    encodeOperation (kindOf i) (decodedOperands (instructionDecode w)) = w := by
  have ha := instructionDecode_agrees w
  rw [h] at ha
  have hw := Rv32i.encode_of_decode h
  have hrd : ∀ r, i.rd? = some r → (decodedOperands (instructionDecode w)).rd = r := fun r hr => by
    rw [decodedOperands_rd, ← hw, Rv32i.rdOf_encode hr]
  have hrs1 : ∀ r, i.rs1? = some r → (decodedOperands (instructionDecode w)).rs1 = r := fun r hr => by
    rw [decodedOperands_rs1, ← hw, Rv32i.rs1Of_encode hr]
  have hrs2 : ∀ r, i.rs2? = some r → (decodedOperands (instructionDecode w)).rs2 = r := fun r hr => by
    rw [decodedOperands_rs2, ← hw, Rv32i.rs2Of_encode hr]
  have himm : kindOf i ≠ .fence →
      BitVec.ofInt 32 (decodedOperands (instructionDecode w)).imm = immediateOf i := fun hk => by
    rw [decodedOperands_imm (ha.kind ▸ hk), ha.immediate i rfl]
  have hfence : kindOf i = .fence →
      (BitVec.ofInt 32 (decodedOperands (instructionDecode w)).imm).setWidth 12 =
        immI (Rv32i.encode i) := fun hk => by
    rw [hw, decodedOperands_imm_fence (ha.kind.trans hk)]
  -- only the operands that the form of the instruction has are known
  refine Eq.trans ?_ hw
  generalize decodedOperands (instructionDecode w) = o at hrd hrs1 hrs2 himm hfence
  cases i with
  | op r =>
    rw [kindOf, encodeOperation_reg, hrd _ rfl, hrs1 _ rfl, hrs2 _ rfl]
  | opImm r =>
    rw [kindOf, encodeOperation_imm, hrd _ rfl, hrs1 _ rfl, himm (by cases r <;> nofun), immediateOf,
      setWidth_signExtend]
  | shift r rd rs1 shamt =>
    have hn := himm (by cases r <;> nofun)
    have hlt : (shamt.setWidth 32).toNat < 32 := by
      have := shamt.isLt
      rw [BitVec.toNat_setWidth]
      omega
    rw [kindOf, encodeOperation_shift _ _ (hn ▸ hlt), hrd _ rfl, hrs1 _ rfl, hn, immediateOf,
      BitVec.setWidth_setWidth (by decide), BitVec.setWidth_eq]
  | upper r =>
    rw [kindOf, encodeOperation_upper, hrd _ rfl, himm (by cases r <;> nofun), immediateOf,
      BitVec.extractLsb'_append_eq_of_le (by decide), BitVec.extractLsb'_eq_self]
  | jal =>
    rw [kindOf, encodeOperation_jal, hrd _ rfl, himm nofun, immediateOf,
      extractLsb'_signExtend (by decide)]
  | jalr =>
    rw [kindOf, encodeOperation_jalr, hrd _ rfl, hrs1 _ rfl, himm nofun, immediateOf,
      setWidth_signExtend]
  | branch r =>
    rw [kindOf, encodeOperation_branch, hrs1 _ rfl, hrs2 _ rfl, himm (by cases r <;> nofun),
      immediateOf, extractLsb'_signExtend (by decide)]
  | load r =>
    rw [kindOf, encodeOperation_load, hrd _ rfl, hrs1 _ rfl, himm (by cases r <;> nofun),
      immediateOf, setWidth_signExtend]
  | store r =>
    rw [kindOf, encodeOperation_store, hrs1 _ rfl, hrs2 _ rfl, himm (by cases r <;> nofun),
      immediateOf, setWidth_signExtend]
  | fence rd rs1 imm =>
    have hi : immI (Rv32i.encode (.fence rd rs1 imm)) = imm :=
      (Rv32i.iFormat_fields imm rs1 0#3 rd 0x0F#7).2.2.2.2
    rw [kindOf, encodeOperation_fence, hrd _ rfl, hrs1 _ rfl, hfence rfl, hi]
  | ecall => rfl
  | ebreak => rfl

/-! ## Decoded immediates are in range -/

theorem toInt_signExtend_range {n : ℕ} (hn : n ≤ 32) (v : BitVec n) :
    -2 ^ (n - 1) ≤ (v.signExtend 32).toInt ∧ (v.signExtend 32).toInt < 2 ^ (n - 1) := by
  rw [BitVec.toInt_signExtend_of_le hn]
  exact ⟨BitVec.le_toInt v, BitVec.toInt_lt⟩

theorem toInt_signExtend_twelve (v : BitVec 12) :
    -2048 ≤ (v.signExtend 32).toInt ∧ (v.signExtend 32).toInt ≤ 2047 := by
  have hr := toInt_signExtend_range (by decide) v
  constructor <;> omega

theorem toInt_signExtend_even {n : ℕ} (hn : n + 1 ≤ 32) (v : BitVec n) :
    ((v ++ 0#1 : BitVec (n + 1)).signExtend 32).toInt % 2 = 0 := by
  rw [BitVec.toInt_signExtend_of_le hn, BitVec.toInt_eq_toNat_cond, BitVec.toNat_append,
    Nat.shiftLeft_eq, BitVec.toNat_ofNat, Nat.zero_mod, Nat.or_zero, pow_succ]
  split_ifs <;> push_cast <;> omega

theorem decodedOperands_range {w : Word} {i : Instr} (h : Rv32i.decode w = some i)
    (hk : hasOperands (kindOf i)) :
    immediateRange (kindOf i) (decodedOperands (instructionDecode w)).imm := by
  have ha := instructionDecode_agrees w
  rw [h] at ha
  have himm : (decodedOperands (instructionDecode w)).imm = (immediateOf i).toInt := by
    rw [decodedOperands, if_neg (ha.kind ▸ hk.2.1), ha.immediate i rfl, instructionSignedValue_eq]
  rw [himm]
  cases i with
  | op r => cases r <;> rfl
  | opImm r rd rs1 imm | load r rd rs1 imm | store r rs1 rs2 imm =>
    cases r <;> exact toInt_signExtend_twelve imm
  | jalr rd rs1 imm => exact toInt_signExtend_twelve imm
  | shift r rd rs1 shamt =>
    have hr : 0 ≤ (shamt.setWidth 32).toInt ∧ (shamt.setWidth 32).toInt ≤ 31 := by
      have := shamt.isLt
      rw [BitVec.toInt_eq_toNat_cond, BitVec.toNat_setWidth]
      split_ifs <;> omega
    cases r <;> exact hr
  | upper r rd imm =>
    have hr : -2147483648 ≤ (imm ++ 0#12).toInt ∧ (imm ++ 0#12).toInt ≤ 2147483647 ∧
        (imm ++ 0#12).toInt % 4096 = 0 := by
      have := imm.isLt
      rw [BitVec.toInt_eq_toNat_cond, BitVec.toNat_append, Nat.shiftLeft_eq, BitVec.toNat_ofNat,
        Nat.zero_mod, Nat.or_zero]
      split_ifs <;> push_cast <;> omega
    cases r <;> exact hr
  | jal rd imm =>
    -- the range of 21 bits, less the odd number at its upper end
    have hr := toInt_signExtend_range (by decide) (imm ++ 0#1 : BitVec 21)
    have he := toInt_signExtend_even (by decide) imm
    have hle : ((imm ++ 0#1 : BitVec 21).signExtend 32).toInt ≤ 1048574 := by omega
    exact ⟨hr.1, hle, he⟩
  | branch r rs1 rs2 imm =>
    have hr := toInt_signExtend_range (by decide) (imm ++ 0#1 : BitVec 13)
    have he := toInt_signExtend_even (by decide) imm
    have hle : ((imm ++ 0#1 : BitVec 13).signExtend 32).toInt ≤ 4094 := by omega
    cases r <;> exact ⟨hr.1, hle, he⟩
  | fence => exact absurd rfl hk.2.1
  | ecall => exact absurd rfl hk.2.2.1
  | ebreak => exact absurd rfl hk.2.2.2

/-! ## The language of the decoder -/

/-- The words of an operation: a standard encoding, any FENCE, or the one ECALL or EBREAK. -/
def isEncoding (kind : InstructionKind) (w : Word) : Prop :=
  match kind with
  | .unknown => False
  | .fence => w.extractLsb' 0 7 = 0x0F#7 ∧ w.extractLsb' 12 3 = 0#3
  | .ecall => w = 0x00000073#32
  | .ebreak => w = 0x00100073#32
  | kind => ∃ o, immediateRange kind o.imm ∧ encodeOperation kind o = w

theorem isEncoding_iff {kind : InstructionKind} (hk : hasOperands kind) (w : Word) :
    isEncoding kind w ↔ ∃ o, immediateRange kind o.imm ∧ encodeOperation kind o = w := by
  cases kind <;> simp_all [isEncoding, hasOperands]

theorem kind_eq_some {w : Word} {kind : InstructionKind} (h : kind ≠ .unknown) :
    (instructionDecode w).kind = kind ↔ ∃ i, Rv32i.decode w = some i ∧ kindOf i = kind := by
  rw [(instructionDecode_agrees w).kind]
  cases Rv32i.decode w with
  | none => simpa using h.symm
  | some i => simp

theorem kindOf_eq_fence {i : Instr} (h : kindOf i = .fence) : ∃ rd rs1 imm, i = .fence rd rs1 imm := by
  cases i with
  | fence rd rs1 imm => exact ⟨rd, rs1, imm, rfl⟩
  | op r | opImm r | shift r | upper r | branch r | load r | store r => cases r <;> cases h
  | jal | jalr | ecall | ebreak => cases h

theorem kindOf_eq_ecall {i : Instr} (h : kindOf i = .ecall) : i = .ecall := by
  cases i with
  | ecall => rfl
  | op r | opImm r | shift r | upper r | branch r | load r | store r => cases r <;> cases h
  | jal | jalr | fence | ebreak => cases h

theorem kindOf_eq_ebreak {i : Instr} (h : kindOf i = .ebreak) : i = .ebreak := by
  cases i with
  | ebreak => rfl
  | op r | opImm r | shift r | upper r | branch r | load r | store r => cases r <;> cases h
  | jal | jalr | fence | ecall => cases h

theorem kind_iff_isEncoding (w : Word) {kind : InstructionKind} (h : kind ≠ .unknown) :
    (instructionDecode w).kind = kind ↔ isEncoding kind w := by
  by_cases hk : hasOperands kind
  · rw [isEncoding_iff hk, kind_eq_some h]
    constructor
    · rintro ⟨i, hi, rfl⟩
      exact ⟨_, decodedOperands_range hi hk, encodeOperation_decodedOperands hi⟩
    · rintro ⟨o, hr, rfl⟩
      exact (kind_eq_some h).mp (shows_encodeOperation hk hr).operation
  rw [kind_eq_some h]
  have hcases : kind = .fence ∨ kind = .ecall ∨ kind = .ebreak := by
    by_contra hc
    simp only [not_or] at hc
    exact hk ⟨h, hc⟩
  rcases hcases with rfl | rfl | rfl
  · constructor
    · rintro ⟨i, hi, hf⟩
      obtain ⟨rd, rs1, imm, rfl⟩ := kindOf_eq_fence hf
      obtain ⟨h0, -, h3, -, -⟩ := Rv32i.iFormat_fields imm rs1 0#3 rd 0x0F#7
      rw [← Rv32i.encode_of_decode hi]
      exact ⟨h0, h3⟩
    · rintro ⟨h0, h3⟩
      have he : Rv32i.encode (.fence (rdOf w) (rs1Of w) (immI w)) = w := by
        rw [Rv32i.encode, ← show funct3Of w = 0#3 from h3, ← show opcodeOf w = 0x0F#7 from h0,
          Rv32i.iFormat_of_fields]
      exact ⟨_, Rv32i.decode_eq_some_iff.mpr he, rfl⟩
  · constructor
    · rintro ⟨i, hi, hf⟩
      rw [kindOf_eq_ecall hf] at hi
      exact (Rv32i.encode_of_decode hi).symm
    · rintro rfl
      exact ⟨.ecall, Rv32i.decode_encode .ecall, rfl⟩
  · constructor
    · rintro ⟨i, hi, hf⟩
      rw [kindOf_eq_ebreak hf] at hi
      exact (Rv32i.encode_of_decode hi).symm
    · rintro rfl
      exact ⟨.ebreak, Rv32i.decode_encode .ebreak, rfl⟩

theorem isEncoding_ne_unknown {kind : InstructionKind} {w : Word} (h : isEncoding kind w) :
    kind ≠ .unknown := by
  rintro rfl
  exact h

/-- Every operation comes back from its encoding, every decoded word is the encoding of what was
decoded, and the words of different operations are disjoint. -/
theorem instructionDecode_inverts_encodeOperation :
    (∀ kind o, hasOperands kind → immediateRange kind o.imm →
      Shows (instructionDecode (encodeOperation kind o)) kind o) ∧
    (∀ w, (instructionDecode w).kind ≠ .unknown → encodeOperation (instructionDecode w).kind
      (decodedOperands (instructionDecode w)) = w) ∧
    (∀ w kind, kind ≠ .unknown → ((instructionDecode w).kind = kind ↔ isEncoding kind w)) ∧
    (∀ w, (instructionDecode w).kind = .unknown ↔ ∀ kind, ¬ isEncoding kind w) ∧
    (∀ w k₁ k₂, isEncoding k₁ w → isEncoding k₂ w → k₁ = k₂) := by
  refine ⟨fun kind o hk hr => shows_encodeOperation hk hr, ?_, fun w kind => kind_iff_isEncoding w,
    ?_, ?_⟩
  · intro w h
    obtain ⟨i, hi, hk⟩ := (kind_eq_some h).mp rfl
    rw [← hk, encodeOperation_decodedOperands hi]
  · intro w
    constructor
    · intro hu kind hw
      have hk := isEncoding_ne_unknown hw
      exact hk (((kind_iff_isEncoding w hk).mpr hw).symm.trans hu)
    · intro hw
      by_contra hu
      exact hw _ ((kind_iff_isEncoding w hu).mp rfl)
  · intro w k₁ k₂ h₁ h₂
    rw [← (kind_iff_isEncoding w (isEncoding_ne_unknown h₁)).mpr h₁,
      (kind_iff_isEncoding w (isEncoding_ne_unknown h₂)).mpr h₂]

theorem instructionDecode_inverts_blt :
    Shows (instructionDecode (encodeOperation .blt ⟨0, 31, 7, -4096⟩)) .blt ⟨0, 31, 7, -4096⟩ ∧
    encodeOperation (instructionDecode 0x807FC063#32).kind
      (decodedOperands (instructionDecode 0x807FC063#32)) = 0x807FC063#32 ∧
    ((instructionDecode 0x0FF0000F#32).kind = .fence ↔ isEncoding .fence 0x0FF0000F#32) ∧
    isEncoding .ecall 0x73#32 :=
  ⟨instructionDecode_inverts_encodeOperation.1 .blt ⟨0, 31, 7, -4096⟩
      ⟨nofun, nofun, nofun, nofun⟩ ⟨by decide, by decide, by decide⟩,
    instructionDecode_inverts_encodeOperation.2.1 0x807FC063#32 (by decide),
    instructionDecode_inverts_encodeOperation.2.2.1 0x0FF0000F#32 .fence nofun, rfl⟩

end Riscv32
