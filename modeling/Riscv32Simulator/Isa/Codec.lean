import Riscv32Simulator.Isa.Instr

/-! Decoding and encoding are inverse to each other: a word decodes to an instruction exactly
when it is the encoding of that instruction. -/

namespace Rv32i

/-! ## Fields of a layout, and the layout of the fields -/

theorem rFormat_fields (f7 : BitVec 7) (rs2 rs1 : Reg) (f3 : BitVec 3) (rd : Reg) (oc : BitVec 7) :
    opcodeOf (rFormat f7 rs2 rs1 f3 rd oc) = oc ∧ rdOf (rFormat f7 rs2 rs1 f3 rd oc) = rd ∧
      funct3Of (rFormat f7 rs2 rs1 f3 rd oc) = f3 ∧ rs1Of (rFormat f7 rs2 rs1 f3 rd oc) = rs1 ∧
      rs2Of (rFormat f7 rs2 rs1 f3 rd oc) = rs2 ∧ funct7Of (rFormat f7 rs2 rs1 f3 rd oc) = f7 := by
  simp (disch := decide) only [rFormat, opcodeOf, rdOf, funct3Of, rs1Of, rs2Of, funct7Of,
    BitVec.extractLsb'_append_eq_of_le, BitVec.extractLsb'_append_eq_of_add_le, Nat.reduceSub,
    BitVec.extractLsb'_eq_self, and_self]

theorem iFormat_fields (imm : BitVec 12) (rs1 : Reg) (f3 : BitVec 3) (rd : Reg) (oc : BitVec 7) :
    opcodeOf (iFormat imm rs1 f3 rd oc) = oc ∧ rdOf (iFormat imm rs1 f3 rd oc) = rd ∧
      funct3Of (iFormat imm rs1 f3 rd oc) = f3 ∧ rs1Of (iFormat imm rs1 f3 rd oc) = rs1 ∧
      immI (iFormat imm rs1 f3 rd oc) = imm := by
  simp (disch := decide) only [iFormat, opcodeOf, rdOf, funct3Of, rs1Of, immI,
    BitVec.extractLsb'_append_eq_of_le, BitVec.extractLsb'_append_eq_of_add_le, Nat.reduceSub,
    BitVec.extractLsb'_eq_self, and_self]

theorem sFormat_fields (imm : BitVec 12) (rs2 rs1 : Reg) (f3 : BitVec 3) (oc : BitVec 7) :
    opcodeOf (sFormat imm rs2 rs1 f3 oc) = oc ∧ funct3Of (sFormat imm rs2 rs1 f3 oc) = f3 ∧
      rs1Of (sFormat imm rs2 rs1 f3 oc) = rs1 ∧ rs2Of (sFormat imm rs2 rs1 f3 oc) = rs2 ∧
      immS (sFormat imm rs2 rs1 f3 oc) = imm := by
  simp (disch := decide) only [sFormat, opcodeOf, funct3Of, rs1Of, rs2Of, immS,
    BitVec.extractLsb'_append_eq_of_le, BitVec.extractLsb'_append_eq_of_add_le, Nat.reduceSub,
    BitVec.extractLsb'_eq_self, true_and]
  simp (disch := decide) only [BitVec.extractLsb'_append_extractLsb'_eq_extractLsb']
  exact BitVec.extractLsb'_eq_self

theorem bFormat_fields (imm : BitVec 12) (rs2 rs1 : Reg) (f3 : BitVec 3) (oc : BitVec 7) :
    opcodeOf (bFormat imm rs2 rs1 f3 oc) = oc ∧ funct3Of (bFormat imm rs2 rs1 f3 oc) = f3 ∧
      rs1Of (bFormat imm rs2 rs1 f3 oc) = rs1 ∧ rs2Of (bFormat imm rs2 rs1 f3 oc) = rs2 ∧
      immB (bFormat imm rs2 rs1 f3 oc) = imm := by
  simp (disch := decide) only [bFormat, opcodeOf, funct3Of, rs1Of, rs2Of, immB,
    BitVec.extractLsb'_append_eq_of_le, BitVec.extractLsb'_append_eq_of_add_le, Nat.reduceSub,
    BitVec.extractLsb'_eq_self, true_and]
  simp (disch := decide) only [BitVec.extractLsb'_append_extractLsb'_eq_extractLsb']
  exact BitVec.extractLsb'_eq_self

theorem uFormat_fields (imm : BitVec 20) (rd : Reg) (oc : BitVec 7) :
    opcodeOf (uFormat imm rd oc) = oc ∧ rdOf (uFormat imm rd oc) = rd ∧
      immU (uFormat imm rd oc) = imm := by
  simp (disch := decide) only [uFormat, opcodeOf, rdOf, immU,
    BitVec.extractLsb'_append_eq_of_le, BitVec.extractLsb'_append_eq_of_add_le, Nat.reduceSub,
    BitVec.extractLsb'_eq_self, and_self]

theorem jFormat_fields (imm : BitVec 20) (rd : Reg) (oc : BitVec 7) :
    opcodeOf (jFormat imm rd oc) = oc ∧ rdOf (jFormat imm rd oc) = rd ∧
      immJ (jFormat imm rd oc) = imm := by
  simp (disch := decide) only [jFormat, opcodeOf, rdOf, immJ,
    BitVec.extractLsb'_append_eq_of_le, BitVec.extractLsb'_append_eq_of_add_le, Nat.reduceSub,
    BitVec.extractLsb'_eq_self, true_and]
  simp (disch := decide) only [BitVec.extractLsb'_append_extractLsb'_eq_extractLsb']
  exact BitVec.extractLsb'_eq_self

theorem rFormat_of_fields (w : Word) :
    rFormat (funct7Of w) (rs2Of w) (rs1Of w) (funct3Of w) (rdOf w) (opcodeOf w) = w := by
  simp (disch := decide) only [rFormat, opcodeOf, rdOf, funct3Of, rs1Of, rs2Of, funct7Of,
    BitVec.extractLsb'_append_extractLsb'_eq_extractLsb']
  exact BitVec.extractLsb'_eq_self

theorem iFormat_of_fields (w : Word) :
    iFormat (immI w) (rs1Of w) (funct3Of w) (rdOf w) (opcodeOf w) = w := by
  simp (disch := decide) only [iFormat, opcodeOf, rdOf, funct3Of, rs1Of, immI,
    BitVec.extractLsb'_append_extractLsb'_eq_extractLsb']
  exact BitVec.extractLsb'_eq_self

theorem sFormat_of_fields (w : Word) :
    sFormat (immS w) (rs2Of w) (rs1Of w) (funct3Of w) (opcodeOf w) = w := by
  simp (disch := decide) only [sFormat, opcodeOf, funct3Of, rs1Of, rs2Of, immS,
    BitVec.extractLsb'_append_eq_of_le, BitVec.extractLsb'_append_eq_of_add_le, Nat.reduceSub,
    BitVec.extractLsb'_eq_self]
  simp (disch := decide) only [BitVec.extractLsb'_append_extractLsb'_eq_extractLsb']
  exact BitVec.extractLsb'_eq_self

theorem bFormat_of_fields (w : Word) :
    bFormat (immB w) (rs2Of w) (rs1Of w) (funct3Of w) (opcodeOf w) = w := by
  simp (disch := decide) only [bFormat, opcodeOf, funct3Of, rs1Of, rs2Of, immB,
    BitVec.extractLsb'_append_eq_of_le, BitVec.extractLsb'_append_eq_of_add_le, Nat.reduceSub,
    BitVec.extractLsb'_eq_self]
  simp (disch := decide) only [BitVec.extractLsb'_append_extractLsb'_eq_extractLsb']
  exact BitVec.extractLsb'_eq_self

theorem uFormat_of_fields (w : Word) : uFormat (immU w) (rdOf w) (opcodeOf w) = w := by
  simp (disch := decide) only [uFormat, opcodeOf, rdOf, immU,
    BitVec.extractLsb'_append_extractLsb'_eq_extractLsb']
  exact BitVec.extractLsb'_eq_self

theorem jFormat_of_fields (w : Word) : jFormat (immJ w) (rdOf w) (opcodeOf w) = w := by
  simp (disch := decide) only [jFormat, opcodeOf, rdOf, immJ,
    BitVec.extractLsb'_append_eq_of_le, BitVec.extractLsb'_append_eq_of_add_le, Nat.reduceSub,
    BitVec.extractLsb'_eq_self]
  simp (disch := decide) only [BitVec.extractLsb'_append_extractLsb'_eq_extractLsb']
  exact BitVec.extractLsb'_eq_self

/-! ## Selectors name one operation each -/

theorem RegOp.find_eq_some {f7 : BitVec 7} {f3 : BitVec 3} {o : RegOp} :
    RegOp.find f7 f3 = some o ↔ o.funct7 = f7 ∧ o.funct3 = f3 := by
  refine ⟨fun h => by simpa using List.find?_some h, ?_⟩
  rintro ⟨rfl, rfl⟩
  cases o <;> decide

theorem ImmOp.find_eq_some {f3 : BitVec 3} {o : ImmOp} :
    ImmOp.find f3 = some o ↔ o.funct3 = f3 := by
  refine ⟨fun h => by simpa using List.find?_some h, ?_⟩
  rintro rfl
  cases o <;> decide

theorem ShiftOp.find_eq_some {f7 : BitVec 7} {f3 : BitVec 3} {o : ShiftOp} :
    ShiftOp.find f7 f3 = some o ↔ o.funct7 = f7 ∧ o.funct3 = f3 := by
  refine ⟨fun h => by simpa using List.find?_some h, ?_⟩
  rintro ⟨rfl, rfl⟩
  cases o <;> decide

theorem BranchOp.find_eq_some {f3 : BitVec 3} {o : BranchOp} :
    BranchOp.find f3 = some o ↔ o.funct3 = f3 := by
  refine ⟨fun h => by simpa using List.find?_some h, ?_⟩
  rintro rfl
  cases o <;> decide

theorem LoadOp.find_eq_some {f3 : BitVec 3} {o : LoadOp} :
    LoadOp.find f3 = some o ↔ o.funct3 = f3 := by
  refine ⟨fun h => by simpa using List.find?_some h, ?_⟩
  rintro rfl
  cases o <;> decide

theorem StoreOp.find_eq_some {f3 : BitVec 3} {o : StoreOp} :
    StoreOp.find f3 = some o ↔ o.funct3 = f3 := by
  refine ⟨fun h => by simpa using List.find?_some h, ?_⟩
  rintro rfl
  cases o <;> decide

/-- The shift selectors are the holes of the immediate arithmetic group. -/
theorem ImmOp.find_shift (o : ShiftOp) : ImmOp.find o.funct3 = none := by
  cases o <;> decide

/-! ## Round trips -/

theorem decode_encode (i : Instr) : decode (encode i) = some i := by
  cases i with
  | op o rd rs1 rs2 =>
    obtain ⟨h0, h1, h2, h3, h4, h5⟩ := rFormat_fields o.funct7 rs2 rs1 o.funct3 rd 0x33#7
    simp [decode, encode, h0, h1, h2, h3, h4, h5, RegOp.find_eq_some]
  | opImm o rd rs1 imm =>
    obtain ⟨h0, h1, h2, h3, h4⟩ := iFormat_fields imm rs1 o.funct3 rd 0x13#7
    simp [decode, encode, h0, h1, h2, h3, h4, ImmOp.find_eq_some.mpr rfl]
  | shift o rd rs1 shamt =>
    obtain ⟨h0, h1, h2, h3, h4, h5⟩ := rFormat_fields o.funct7 shamt rs1 o.funct3 rd 0x13#7
    simp [decode, encode, h0, h1, h2, h3, h4, h5, ImmOp.find_shift, ShiftOp.find_eq_some]
  | upper o rd imm =>
    obtain ⟨h0, h1, h2⟩ := uFormat_fields imm rd o.opcode
    cases o <;> simp_all [decode, encode, UpperOp.opcode]
  | jal rd imm =>
    obtain ⟨h0, h1, h2⟩ := jFormat_fields imm rd 0x6F#7
    simp [decode, encode, h0, h1, h2]
  | jalr rd rs1 imm =>
    obtain ⟨h0, h1, h2, h3, h4⟩ := iFormat_fields imm rs1 0#3 rd 0x67#7
    simp [decode, encode, h0, h1, h2, h3, h4]
  | branch o rs1 rs2 imm =>
    obtain ⟨h0, h1, h2, h3, h4⟩ := bFormat_fields imm rs2 rs1 o.funct3 0x63#7
    simp [decode, encode, h0, h1, h2, h3, h4, BranchOp.find_eq_some]
  | load o rd rs1 imm =>
    obtain ⟨h0, h1, h2, h3, h4⟩ := iFormat_fields imm rs1 o.funct3 rd 0x03#7
    simp [decode, encode, h0, h1, h2, h3, h4, LoadOp.find_eq_some]
  | store o rs1 rs2 imm =>
    obtain ⟨h0, h1, h2, h3, h4⟩ := sFormat_fields imm rs2 rs1 o.funct3 0x23#7
    simp [decode, encode, h0, h1, h2, h3, h4, StoreOp.find_eq_some]
  | fence rd rs1 imm =>
    obtain ⟨h0, h1, h2, h3, h4⟩ := iFormat_fields imm rs1 0#3 rd 0x0F#7
    simp [decode, encode, h0, h1, h2, h3, h4]
  | ecall => decide
  | ebreak => decide

theorem rdOf_encode {i : Instr} {r : Reg} (h : i.rd? = some r) : rdOf (encode i) = r := by
  cases i <;> simp only [Instr.rd?, Option.some.injEq, reduceCtorEq] at h <;> subst h
  case op o rd rs1 rs2 => exact (rFormat_fields _ _ _ _ _ _).2.1
  case shift o rd rs1 shamt => exact (rFormat_fields _ _ _ _ _ _).2.1
  case upper o rd imm => exact (uFormat_fields _ _ _).2.1
  case jal rd imm => exact (jFormat_fields _ _ _).2.1
  all_goals exact (iFormat_fields _ _ _ _ _).2.1

theorem rs1Of_encode {i : Instr} {r : Reg} (h : i.rs1? = some r) : rs1Of (encode i) = r := by
  cases i <;> simp only [Instr.rs1?, Option.some.injEq, reduceCtorEq] at h <;> subst h
  case op o rd rs1 rs2 => exact (rFormat_fields _ _ _ _ _ _).2.2.2.1
  case shift o rd rs1 shamt => exact (rFormat_fields _ _ _ _ _ _).2.2.2.1
  case branch o rs1 rs2 imm => exact (bFormat_fields _ _ _ _ _).2.2.1
  case store o rs1 rs2 imm => exact (sFormat_fields _ _ _ _ _).2.2.1
  all_goals exact (iFormat_fields _ _ _ _ _).2.2.2.1

theorem rs2Of_encode {i : Instr} {r : Reg} (h : i.rs2? = some r) : rs2Of (encode i) = r := by
  cases i <;> simp only [Instr.rs2?, Option.some.injEq, reduceCtorEq] at h <;> subst h
  case op o rd rs1 rs2 => exact (rFormat_fields _ _ _ _ _ _).2.2.2.2.1
  case branch o rs1 rs2 imm => exact (bFormat_fields _ _ _ _ _).2.2.2.1
  case store o rs1 rs2 imm => exact (sFormat_fields _ _ _ _ _).2.2.2.1

theorem encode_injective : Function.Injective encode := fun i j h =>
  Option.some.inj (by rw [← decode_encode i, h, decode_encode])

theorem encode_of_decode {w : Word} {i : Instr} (h : decode w = some i) : encode i = w := by
  unfold decode at h
  by_cases hop : opcodeOf w = 0x33#7
  · rw [if_pos hop] at h
    obtain ⟨o, ho, rfl⟩ := Option.map_eq_some_iff.mp h
    obtain ⟨h7, h3⟩ := RegOp.find_eq_some.mp ho
    rw [encode, h7, h3, ← hop, rFormat_of_fields]
  rw [if_neg hop] at h
  by_cases himm : opcodeOf w = 0x13#7
  · rw [if_pos himm, Option.orElse_eq_orElse, Option.orElse_eq_or, Option.or_eq_some_iff] at h
    -- a shift is tried where no other operation has the code
    rcases h with h | ⟨-, h⟩
    · obtain ⟨o, ho, rfl⟩ := Option.map_eq_some_iff.mp h
      rw [encode, ImmOp.find_eq_some.mp ho, ← himm, iFormat_of_fields]
    · obtain ⟨o, ho, rfl⟩ := Option.map_eq_some_iff.mp h
      obtain ⟨h7, h3⟩ := ShiftOp.find_eq_some.mp ho
      rw [encode, h7, h3, ← himm, rFormat_of_fields]
  rw [if_neg himm] at h
  by_cases hlui : opcodeOf w = 0x37#7
  · rw [if_pos hlui] at h
    rw [← Option.some.inj h, encode, UpperOp.opcode, ← hlui, uFormat_of_fields]
  rw [if_neg hlui] at h
  by_cases hauipc : opcodeOf w = 0x17#7
  · rw [if_pos hauipc] at h
    rw [← Option.some.inj h, encode, UpperOp.opcode, ← hauipc, uFormat_of_fields]
  rw [if_neg hauipc] at h
  by_cases hjal : opcodeOf w = 0x6F#7
  · rw [if_pos hjal] at h
    rw [← Option.some.inj h, encode, ← hjal, jFormat_of_fields]
  rw [if_neg hjal] at h
  by_cases hjalr : opcodeOf w = 0x67#7
  · rw [if_pos hjalr] at h
    obtain ⟨h3, h⟩ := Option.ite_none_right_eq_some.mp h
    rw [← Option.some.inj h, encode, ← hjalr, ← h3, iFormat_of_fields]
  rw [if_neg hjalr] at h
  by_cases hbranch : opcodeOf w = 0x63#7
  · rw [if_pos hbranch] at h
    obtain ⟨o, ho, rfl⟩ := Option.map_eq_some_iff.mp h
    rw [encode, BranchOp.find_eq_some.mp ho, ← hbranch, bFormat_of_fields]
  rw [if_neg hbranch] at h
  by_cases hload : opcodeOf w = 0x03#7
  · rw [if_pos hload] at h
    obtain ⟨o, ho, rfl⟩ := Option.map_eq_some_iff.mp h
    rw [encode, LoadOp.find_eq_some.mp ho, ← hload, iFormat_of_fields]
  rw [if_neg hload] at h
  by_cases hstore : opcodeOf w = 0x23#7
  · rw [if_pos hstore] at h
    obtain ⟨o, ho, rfl⟩ := Option.map_eq_some_iff.mp h
    rw [encode, StoreOp.find_eq_some.mp ho, ← hstore, sFormat_of_fields]
  rw [if_neg hstore] at h
  by_cases hfence : opcodeOf w = 0x0F#7
  · rw [if_pos hfence] at h
    obtain ⟨h3, h⟩ := Option.ite_none_right_eq_some.mp h
    rw [← Option.some.inj h, encode, ← hfence, ← h3, iFormat_of_fields]
  rw [if_neg hfence] at h
  by_cases hecall : w = 0x00000073#32
  · rw [if_pos hecall] at h
    rw [← Option.some.inj h, hecall]
    decide
  rw [if_neg hecall] at h
  obtain ⟨hebreak, h⟩ := Option.ite_none_right_eq_some.mp h
  rw [← Option.some.inj h, hebreak]
  decide

theorem decode_eq_some_iff {w : Word} {i : Instr} : decode w = some i ↔ encode i = w :=
  ⟨encode_of_decode, fun h => h ▸ decode_encode i⟩

end Rv32i
