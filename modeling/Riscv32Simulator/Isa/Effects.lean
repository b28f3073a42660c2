import Riscv32Simulator.Isa.Codec
import Riscv32Simulator.Isa.Step

/-! An instruction by its effects: where it goes, what it accesses, which register it writes. The
step of the hart is put together from them. -/

namespace Rv32i

structure Access where
  store : Bool
  width : ℕ
  address : Word
deriving DecidableEq

def Instr.target (pc left right : Word) : Instr → Option Word
  | .jal _ imm => some (pc + offsetJ imm)
  | .jalr _ _ imm => some ((left + offsetI imm).extractLsb' 1 31 ++ 0#1)
  | .branch o _ _ imm => if o.taken left right then some (pc + offsetB imm) else none
  | _ => none

def Instr.access (left : Word) : Instr → Option Access
  | .load o _ _ imm => some ⟨false, o.width, left + offsetI imm⟩
  | .store o _ _ imm => some ⟨true, o.width, left + offsetI imm⟩
  | _ => none

def Instr.dest : Instr → Option Reg
  | .fence .. => none
  | i => i.rd?

def Instr.value (mem : Word → BitVec 8) (pc left right : Word) : Instr → Word
  | .op o .. => o.eval left right
  | .opImm o _ _ imm => o.toRegOp.eval left (offsetI imm)
  | .shift o _ _ shamt => o.toRegOp.eval left (shamt.setWidth 32)
  | .upper .lui _ imm => upperValue imm
  | .upper .auipc _ imm => pc + upperValue imm
  | .jal .. | .jalr .. => pc + 4
  | .load o _ _ imm => o.read mem (left + offsetI imm)
  | _ => 0

def Instr.store? (mem : Word → BitVec 8) (left right : Word) : Instr → Word → BitVec 8
  | .store o _ _ imm => o.write mem (left + offsetI imm) right
  | _ => mem

def Instr.retires (size : ℕ) (pc left right : Word) (i : Instr) : Prop :=
  i ≠ .ecall ∧ i ≠ .ebreak ∧ (∀ t ∈ i.target pc left right, t.toNat % 4 = 0) ∧
    ∀ a ∈ i.access left, accessible size a.address a.width

def State.writeback (s : State) (rd : Option Reg) (v : Word) : State :=
  rd.elim s fun rd => s.setX rd v

def State.after (s : State) (left right : Word) (i : Instr) : State :=
  ({ s with mem := i.store? s.mem left right }.writeback i.dest (i.value s.mem s.pc left right)).retire
    ((i.target s.pc left right).getD (s.pc + 4))

@[simp] theorem State.setX_pc (s : State) (rd : Reg) (v : Word) : (s.setX rd v).pc = s.pc := by
  unfold State.setX
  split_ifs <;> rfl

theorem State.next_setX (s : State) (rd : Reg) (v : Word) :
    (s.setX rd v).next = (s.setX rd v).retire (s.pc + 4) := by rw [State.next, State.setX_pc]

theorem Instr.retires_and_iff {i : Instr} {size : ℕ} {pc left right : Word} {p : Prop}
    (h₁ : i ≠ .ecall) (h₂ : i ≠ .ebreak) (ht : i.target pc left right = none)
    (ha : i.access left = none) : p ↔ i.retires size pc left right ∧ p := by
  rw [Instr.retires, ht, ha]
  exact ⟨fun hp => ⟨⟨h₁, h₂, nofun, nofun⟩, hp⟩, fun hp => hp.2⟩

theorem exec_iff {w : Word} {i : Instr} (h : decode w = some i) (size : ℕ) (s s' : State) :
    exec size s i = some s' ↔
      i.retires size s.pc (s.x (rs1Of w)) (s.x (rs2Of w)) ∧
        s.after (s.x (rs1Of w)) (s.x (rs2Of w)) i = s' := by
  have hw := encode_of_decode h
  have hrs1 : ∀ r, i.rs1? = some r → rs1Of w = r := fun r hr => by rw [← hw, rs1Of_encode hr]
  have hrs2 : ∀ r, i.rs2? = some r → rs2Of w = r := fun r hr => by rw [← hw, rs2Of_encode hr]
  -- the word matters only through the registers it names
  generalize rs1Of w = r1 at hrs1
  generalize rs2Of w = r2 at hrs2
  cases i with
  | op o rd rs1 rs2 =>
    rw [hrs1 rs1 rfl, hrs2 rs2 rfl, exec, State.next_setX, Option.some.injEq]
    exact Instr.retires_and_iff (by simp) (by simp) (by rfl) (by rfl)
  | opImm o rd rs1 imm =>
    rw [hrs1 rs1 rfl, exec, State.next_setX, Option.some.injEq]
    exact Instr.retires_and_iff (by simp) (by simp) (by rfl) (by rfl)
  | shift o rd rs1 shamt =>
    rw [hrs1 rs1 rfl, exec, State.next_setX, Option.some.injEq]
    exact Instr.retires_and_iff (by simp) (by simp) (by rfl) (by rfl)
  | upper o rd imm =>
    cases o <;> rw [exec, State.next_setX, Option.some.injEq] <;>
      exact Instr.retires_and_iff (by simp) (by simp) (by rfl) (by rfl)
  | fence rd rs1 imm =>
    rw [exec, Option.some.injEq]
    exact Instr.retires_and_iff (by simp) (by simp) (by rfl) (by rfl)
  | ecall => simp [exec, Instr.retires]
  | ebreak => simp [exec, Instr.retires]
  | jal rd imm =>
    rw [exec, State.jump, Option.ite_none_right_eq_some, Option.some.injEq]
    exact and_congr_left fun _ => by simp [Instr.retires, Instr.target, Instr.access]
  | jalr rd rs1 imm =>
    rw [hrs1 rs1 rfl, exec, State.jump, Option.ite_none_right_eq_some, Option.some.injEq]
    exact and_congr_left fun _ => by simp [Instr.retires, Instr.target, Instr.access]
  | branch o rs1 rs2 imm =>
    rw [hrs1 rs1 rfl, hrs2 rs2 rfl, exec]
    by_cases ht : o.taken (s.x rs1) (s.x rs2)
    · rw [if_pos ht, Option.ite_none_right_eq_some, Option.some.injEq]
      simp [Instr.retires, Instr.target, Instr.access, State.after, ht, State.writeback, Instr.dest,
        Instr.store?, Instr.rd?]
    · rw [if_neg ht, Option.some.injEq]
      have hr : (Instr.branch o rs1 rs2 imm).target s.pc (s.x rs1) (s.x rs2) = none := if_neg ht
      rw [State.after, hr]
      exact Instr.retires_and_iff (by simp) (by simp) hr (by rfl)
  | load o rd rs1 imm =>
    rw [hrs1 rs1 rfl, exec, Option.ite_none_right_eq_some, State.next_setX, Option.some.injEq]
    exact and_congr_left fun _ => by simp [Instr.retires, Instr.target, Instr.access]
  | store o rs1 rs2 imm =>
    rw [hrs1 rs1 rfl, hrs2 rs2 rfl, exec, Option.ite_none_right_eq_some, Option.some.injEq]
    exact and_congr_left fun _ => by simp [Instr.retires, Instr.target, Instr.access]

theorem step_iff {size : ℕ} {s s' : State} : step size s = some s' ↔
    accessible size s.pc 4 ∧ ∃ i, decode (wordAt s.mem s.pc) = some i ∧
      i.retires size s.pc (s.x (rs1Of (wordAt s.mem s.pc))) (s.x (rs2Of (wordAt s.mem s.pc))) ∧
        s.after (s.x (rs1Of (wordAt s.mem s.pc))) (s.x (rs2Of (wordAt s.mem s.pc))) i = s' := by
  rw [step, Option.ite_none_right_eq_some, Option.bind_eq_some_iff]
  refine and_congr_right fun _ => exists_congr fun i => and_congr_right fun h => ?_
  exact exec_iff h size s s'

end Rv32i
