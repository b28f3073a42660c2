import Riscv32Simulator.Isa.Codec
import Riscv32Simulator.Isa.Step
import Riscv32Simulator.Library.LabelledRun

/-! Runs of the hart through instructions whose words lie in memory. -/

namespace Rv32i
open LabelledRun

/-- A step, labelled with the program counter it is taken at. -/
def traced (size : ℕ) (s : State) : Option (Word × State) := (step size s).map fun t => (s.pc, t)

def Holds (mem : Word → BitVec 8) (l : Word) (is : List Instr) : Prop :=
  ∀ k i, is[k]? = some i → wordAt mem (l + BitVec.ofNat 32 (4 * k)) = encode i

theorem Run.instr {size : ℕ} {s t : State} {i : Instr} (hacc : accessible size s.pc 4)
    (hcode : wordAt s.mem s.pc = encode i) (hexec : exec size s i = some t) :
    Run (traced size) s [s.pc] t := by
  refine .single ?_
  rw [traced, step, if_pos hacc, hcode, decode_encode, Option.bind_some, hexec]
  rfl

@[simp] theorem State.setX_retired (s : State) (rd : Reg) (v : Word) :
    (s.setX rd v).retired = s.retired := by
  rw [State.setX]
  split_ifs <;> rfl

theorem State.jump_retired {s t : State} {rd : Reg} {target : Word} (h : s.jump rd target = some t) :
    t.retired = s.retired + 1 := by
  obtain ⟨-, ht⟩ := Option.ite_none_right_eq_some.mp h
  rw [← Option.some.inj ht]
  exact congrArg (· + 1) (s.setX_retired ..)

theorem exec_retired {size : ℕ} {s t : State} {i : Instr} (h : exec size s i = some t) :
    t.retired = s.retired + 1 := by
  have hset (rd : Reg) (v : Word) : (s.setX rd v).next.retired = s.retired + 1 :=
    congrArg (· + 1) (s.setX_retired rd v)
  cases i with
  | op o rd rs1 rs2 => exact Option.some.inj h ▸ hset ..
  | opImm o rd rs1 imm => exact Option.some.inj h ▸ hset ..
  | shift o rd rs1 shamt => exact Option.some.inj h ▸ hset ..
  | upper o rd imm => cases o <;> exact Option.some.inj h ▸ hset ..
  | jal rd imm => exact State.jump_retired h
  | jalr rd rs1 imm => exact State.jump_retired h
  | branch o rs1 rs2 imm =>
    rw [exec] at h
    split_ifs at h <;> exact Option.some.inj h ▸ rfl
  | load o rd rs1 imm =>
    obtain ⟨-, ht⟩ := Option.ite_none_right_eq_some.mp h
    exact Option.some.inj ht ▸ hset ..
  | store o rs1 rs2 imm =>
    obtain ⟨-, ht⟩ := Option.ite_none_right_eq_some.mp h
    exact Option.some.inj ht ▸ rfl
  | fence => exact Option.some.inj h ▸ rfl
  | ecall => cases h
  | ebreak => cases h

theorem Run.retired {size : ℕ} {s t : State} {pcs : List Word} (h : Run (traced size) s pcs t) :
    t.retired = s.retired + BitVec.ofNat 64 pcs.length := by
  induction h with
  | nil => exact (BitVec.add_zero _).symm
  | @cons s u t pc pcs hstep _ ih =>
    obtain ⟨v, hv, hpair⟩ := Option.map_eq_some_iff.mp hstep
    obtain ⟨rfl, rfl⟩ := Prod.mk.inj hpair
    obtain ⟨-, hbind⟩ := Option.ite_none_right_eq_some.mp hv
    obtain ⟨i, -, hexec⟩ := Option.bind_eq_some_iff.mp hbind
    rw [ih, exec_retired hexec, List.length_cons, BitVec.add_assoc, Nat.add_comm, BitVec.ofNat_add]
    rfl

theorem wordAt_congr {mem mem' : Word → BitVec 8} {a : Word}
    (h : ∀ k < 4#32, mem' (a + k) = mem (a + k)) : wordAt mem' a = wordAt mem a := by
  have h0 := h 0 (by decide)
  rw [BitVec.ofNat_eq_ofNat, BitVec.add_zero] at h0
  rw [wordAt, wordAt, h0, h 1 (by decide), h 2 (by decide), h 3 (by decide)]

theorem Holds.congr {mem mem' : Word → BitVec 8} {l : Word} {is : List Instr} (h : Holds mem l is)
    (hl : l.toNat + 4 * is.length ≤ 2 ^ 32)
    (hmem : ∀ a : Word, l.toNat ≤ a.toNat → a.toNat < l.toNat + 4 * is.length → mem' a = mem a) :
    Holds mem' l is := by
  intro k i hi
  have hk : k < is.length := (List.getElem?_eq_some_iff.mp hi).1
  rw [← h k i hi]
  refine wordAt_congr fun j hj => hmem _ ?_ ?_
  · bv_omega
  · bv_omega

end Rv32i
