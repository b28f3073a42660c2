import Riscv32Simulator.Execution.Encoding
import Riscv32Simulator.Source.Disassembly

/-! An assembler for the documented syntax, as the inverse of the disassembler. -/

namespace Riscv32
open Format
open Rv32i (Instr Word RegOp ImmOp ShiftOp UpperOp BranchOp LoadOp StoreOp rdOf rs1Of rs2Of immI)

/-! ## Syntax -/

/-- What stands in the place of an operand: the numbers of FENCE have places of their own. -/
inductive Slot
  | rd | rs1 | rs2 | imm | imm20 | value | pred | succ | fm
deriving DecidableEq

def slotNames : List (Bytes × Slot) :=
  [(ascii "rd", .rd), (ascii "rs1", .rs1), (ascii "rs2", .rs2), (ascii "imm", .imm),
    (ascii "offset", .imm), (ascii "shamt", .imm), (ascii "imm20", .imm20), (ascii "value", .value),
    (ascii "PRED", .pred), (ascii "SUCC", .succ), (ascii "FM", .fm)]

/-- The table leaves out the operands of FENCE. -/
def assemblySyntax (kind : InstructionKind) : Bytes :=
  if kind = .fence then ascii "fence pred=PRED, succ=SUCC, fm=FM"
  else (instructionInfo kind).syntaxText

def isWordChar (c : BitVec 8) : Bool :=
  c = 0x2E#8 || (0x30#8 ≤ c && c ≤ 0x39#8) || (0x41#8 ≤ c && c ≤ 0x5A#8) ||
    (0x61#8 ≤ c && c ≤ 0x7A#8)

def syntaxItems (text : Bytes) : List (Bytes ⊕ Slot) :=
  (text.splitBy fun a b => isWordChar a && isWordChar b).map fun w =>
    match slotNames.lookup w with
    | some slot => .inr slot
    | none => .inl w

def Slot.directives : Slot → List Directive
  | .rd | .rs1 | .rs2 => [.text (ascii "x"), .decimal]
  | .imm => [.decimal]
  | .imm20 => [.text (ascii "0x"), .hex 5]
  | .value => [.text (ascii "0x"), .hex 8]
  | .pred | .succ | .fm => [.text (ascii "0x"), .hex 0]

def directives (items : List (Bytes ⊕ Slot)) : List Directive :=
  items.flatMap (Sum.elim (fun w => [.text w]) Slot.directives)

def slots (items : List (Bytes ⊕ Slot)) : List Slot := items.filterMap Sum.getRight?

/-! ## Assembling -/

def Slot.put : Slot → ℤ → Operands → Operands
  | .rd, v, o => { o with rd := BitVec.ofInt 5 v }
  | .rs1, v, o => { o with rs1 := BitVec.ofInt 5 v }
  | .rs2, v, o => { o with rs2 := BitVec.ofInt 5 v }
  | .imm, v, o | .value, v, o => { o with imm := v }
  | .imm20, v, o => { o with imm := v * 4096 }
  | .pred, v, o => { o with imm := o.imm + v * 16 }
  | .succ, v, o => { o with imm := o.imm + v }
  | .fm, v, o => { o with imm := o.imm + v * 256 }

def putAll : List Slot → List ℤ → Operands
  | slot :: slots, v :: vs => slot.put v (putAll slots vs)
  | _, _ => ⟨0, 0, 0, 0⟩

def assembleOperation (kind : InstructionKind) (o : Operands) : BitVec 32 :=
  if kind = .unknown then BitVec.ofInt 32 o.imm else encodeOperation kind o

def kinds : List InstructionKind :=
  [.unknown, .add, .sub, .sll, .slt, .sltu, .xor, .srl, .sra, .or, .and, .addi, .slti, .sltiu, .xori,
    .ori, .andi, .slli, .srli, .srai, .lui, .auipc, .jal, .jalr, .beq, .bne, .blt, .bge, .bltu, .bgeu,
    .lb, .lh, .lw, .lbu, .lhu, .sb, .sh, .sw, .fence, .ecall, .ebreak]

def mnemonic (text : Bytes) : Bytes := text.takeWhile fun c => c ≠ 0x20#8

/-- The mnemonic tells the operation, and the operation's syntax tells where its operands are. -/
def assemble (text : Bytes) : Option (BitVec 32) :=
  match kinds.find? fun kind => mnemonic (assemblySyntax kind) = mnemonic text with
  | none => none
  | some kind =>
    let items := syntaxItems (assemblySyntax kind)
    (scan (directives items) text).map fun vs => assembleOperation kind (putAll (slots items) vs)

/-! ## The syntax of each operation -/

theorem mem_kinds (kind : InstructionKind) : kind ∈ kinds := by
  cases kind <;> decide

def operandItems (kind : InstructionKind) : List (Bytes ⊕ Slot) :=
  let blank := .inl (ascii " ")
  let comma := .inl (ascii ",")
  match kind, operationFormat kind with
  | .unknown, _ => [blank, .inr .value]
  | .fence, _ =>
    [blank, .inl (ascii "pred"), .inl (ascii "="), .inr .pred, comma, blank, .inl (ascii "succ"),
      .inl (ascii "="), .inr .succ, comma, blank, .inl (ascii "fm"), .inl (ascii "="), .inr .fm]
  | .ecall, _ | .ebreak, _ => []
  | _, .r => [blank, .inr .rd, comma, blank, .inr .rs1, comma, blank, .inr .rs2]
  | _, .u => [blank, .inr .rd, comma, blank, .inr .imm20]
  | _, .j => [blank, .inr .rd, comma, blank, .inr .imm]
  | _, .b => [blank, .inr .rs1, comma, blank, .inr .rs2, comma, blank, .inr .imm]
  | _, .s => [blank, .inr .rs2, comma, blank, .inr .imm, .inl (ascii "("), .inr .rs1, .inl (ascii ")")]
  | .jalr, _ | .lb, _ | .lh, _ | .lw, _ | .lbu, _ | .lhu, _ =>
    [blank, .inr .rd, comma, blank, .inr .imm, .inl (ascii "("), .inr .rs1, .inl (ascii ")")]
  | _, _ => [blank, .inr .rd, comma, blank, .inr .rs1, comma, blank, .inr .imm]

theorem syntaxItems_of_mem : ∀ kind ∈ kinds, syntaxItems (assemblySyntax kind) =
    .inl (mnemonic (assemblySyntax kind)) :: operandItems kind := by
  decide +kernel

theorem mnemonic_of_mem : ∀ kind ∈ kinds, (mnemonic (assemblySyntax kind)).length ≤ 6 ∧
    (kind = .unknown ∨ (instructionInfo kind).name = mnemonic (assemblySyntax kind)) := by
  decide +kernel

theorem find?_mnemonic_of_mem : ∀ kind ∈ kinds,
    kinds.find? (fun k => mnemonic (assemblySyntax k) = mnemonic (assemblySyntax kind)) =
      some kind := by
  decide +kernel

theorem separated_operandItems (kind : InstructionKind) :
    separated (directives (operandItems kind)) = true := by
  cases kind <;> decide +kernel

theorem room_operandItems (kind : InstructionKind) :
    ((directives (operandItems kind)).map Directive.room).sum ≤ 64 := by
  cases kind <;> decide +kernel

theorem operandItems_start (kind : InstructionKind) :
    operandItems kind = [] ∨ ∃ items, operandItems kind = .inl (ascii " ") :: items := by
  cases kind <;> first | exact .inl rfl | exact .inr ⟨_, rfl⟩

/-! ## The text of a word follows the syntax of its operation -/

/-- The number that a word's text has in the place of an operand. -/
def Slot.shown (w : Word) : Slot → ℤ
  | .rd => (instructionDecode w).fields.rd.toNat
  | .rs1 => (instructionDecode w).fields.rs1.toNat
  | .rs2 => (instructionDecode w).fields.rs2.toNat
  | .imm => instructionSignedValue (instructionDecode w).immediate
  | .imm20 => ((instructionDecode w).immediate >>> 12).toNat
  | .value => w.toNat
  | .pred => ((w >>> 24) &&& 15#32).toNat
  | .succ => ((w >>> 20) &&& 15#32).toNat
  | .fm => (w >>> 28).toNat

def shownAll (w : Word) (kind : InstructionKind) : List ℤ :=
  (slots (operandItems kind)).map (Slot.shown w)

theorem decoded_format {w : Word} {kind : InstructionKind} (hk : (instructionDecode w).kind = kind)
    (h : kind ≠ .unknown) : (instructionDecode w).format = operationFormat kind := by
  obtain ⟨i, hi, rfl⟩ := (kind_eq_some h).mp hk
  have ha := instructionDecode_agrees w
  rw [hi] at ha
  exact (ha.format i rfl).trans (formatOf_eq i)

/-- The disassembler's choice by format and order of operations is the one the table documents. -/
theorem instructionText_eq {w : Word} {kind : InstructionKind}
    (hk : (instructionDecode w).kind = kind) : instructionText w =
      mnemonic (assemblySyntax kind) ++ print (directives (operandItems kind)) (shownAll w kind) := by
  by_cases h : kind = .unknown
  · have hname : mnemonic (assemblySyntax .unknown) = ascii ".word" := by decide +kernel
    subst h
    unfold instructionText
    rw [if_pos hk, hname]
    rfl
  · have hname := ((mnemonic_of_mem kind (mem_kinds kind)).2).resolve_left h
    have hf := decoded_format hk h
    unfold instructionText
    by_cases hfence : kind = .fence
    · subst hfence
      rw [if_neg (by rw [hk]; exact h), if_pos hk, ← hname]
      rfl
    · simp only [hk, hf, hname]
      generalize mnemonic (assemblySyntax kind) = name
      cases kind <;> first | exact absurd rfl h | exact absurd rfl hfence | rfl

/-! ## Assembling the text of a word -/

theorem Slot.shown_lt (w : Word) (slot : Slot) : (slot.shown w).natAbs < 2 ^ 32 := by
  have hbyte : ∀ b : BitVec 8, b.toNat < 2 ^ 32 := fun b => b.isLt.trans (by decide)
  cases slot with
  | rd => exact hbyte _
  | rs1 => exact hbyte _
  | rs2 => exact hbyte _
  | imm =>
    rw [shown, instructionSignedValue_eq]
    have hlo := BitVec.le_toInt (instructionDecode w).immediate
    have hhi := BitVec.toInt_lt (x := (instructionDecode w).immediate)
    omega
  | imm20 => exact BitVec.isLt _
  | value => exact BitVec.isLt _
  | pred => exact BitVec.isLt _
  | succ => exact BitVec.isLt _
  | fm => exact BitVec.isLt _

theorem takes_directives (w : Word) (items : List (Bytes ⊕ Slot)) :
    Takes (directives items) ((slots items).map (Slot.shown w)) := by
  induction items with
  | nil => exact .nil
  | cons item items ih =>
    cases item with
    | inl text => exact .text text ih
    | inr slot =>
      cases slot with
      | rd => exact .text _ (.decimal _ ih)
      | rs1 => exact .text _ (.decimal _ ih)
      | rs2 => exact .text _ (.decimal _ ih)
      | imm => exact .decimal _ ih
      | imm20 => exact .text _ (.hex _ _ ih)
      | value => exact .text _ (.hex _ _ ih)
      | pred => exact .text _ (.hex _ _ ih)
      | succ => exact .text _ (.hex _ _ ih)
      | fm => exact .text _ (.hex _ _ ih)

theorem length_instructionText (w : Word) : (instructionText w).length < 128 := by
  have hname := (mnemonic_of_mem _ (mem_kinds (instructionDecode w).kind)).1
  have hroom := room_operandItems (instructionDecode w).kind
  have hshort : ∀ v ∈ shownAll w (instructionDecode w).kind, v.natAbs < 2 ^ 32 := by
    unfold shownAll
    rw [List.forall_mem_map]
    exact fun slot _ => slot.shown_lt w
  have hprint := @length_print_le (directives (operandItems (instructionDecode w).kind)) _ hshort
  rw [instructionText_eq rfl, List.length_append]
  omega

theorem mnemonic_instructionText (w : Word) :
    mnemonic (instructionText w) = mnemonic (assemblySyntax (instructionDecode w).kind) := by
  have hname : ∀ c ∈ mnemonic (assemblySyntax (instructionDecode w).kind),
      decide (c ≠ 0x20#8) = true := Text.takeWhile_all _
  rw [instructionText_eq rfl]
  refine (Text.takeWhile_append hname ?_).1
  rcases operandItems_start (instructionDecode w).kind with h | ⟨items, h⟩
  · rw [shownAll, h]
    exact fun c hc => by cases hc
  · rw [shownAll, h]
    intro c hc
    obtain rfl : 0x20#8 = c := Option.some.inj hc
    rfl

theorem scan_instructionText (w : Word) :
    scan (directives (syntaxItems (assemblySyntax (instructionDecode w).kind))) (instructionText w) =
      some (shownAll w (instructionDecode w).kind) := by
  rw [syntaxItems_of_mem _ (mem_kinds _), instructionText_eq rfl]
  exact scan_print (.text _ (takes_directives w _)) (separated_operandItems _)

end Riscv32
