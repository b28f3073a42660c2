import Riscv32Simulator.Execution.Outcome

/-! One step of the CPU refines one step of the RV32I hart. -/

namespace Riscv32
open Rv32i (Instr Word State StoreOp accessible)

def hart (cpu : Cpu) (memory : Memory) : State where
  reg := fun r => cpu.registers r.toFin
  pc := cpu.programCounter
  retired := cpu.instructionCount
  mem := memory.at

/-! ## Retirement -/

theorem inRam_iff {memory : Memory} (hm : memoryReady memory = true) (a : Word) (n : ℕ) :
    inRam memory a n = true ↔ a.toNat + n ≤ memory.size := by
  rw [inRam, hm, Bool.true_and, decide_eq_true_eq]

theorem accessible_iff {memory : Memory} (hm : memoryReady memory = true) (a : Word) (n : ℕ) :
    accessible memory.size a n ↔ misaligned a n = false ∧ inRam memory a n = true := by
  rw [inRam_iff hm, misaligned_eq_false, accessible]

/-- No check fails exactly when the reference lets the instruction retire. -/
theorem firstTrap_eq_none_iff {cpu : Cpu} {memory : Memory} (hm : memoryReady memory = true) :
    firstTrap cpu memory = none ↔ accessible memory.size cpu.programCounter 4 ∧
      ∃ i, instrAt cpu memory = some i ∧
        i.retires memory.size cpu.programCounter (leftOf cpu memory) (rightOf cpu memory) := by
  rw [firstTrap, List.find?_eq_none, accessible_iff hm]
  cases hi : instrAt cpu memory with
  | none => simp [trapChecks, hi]
  | some i =>
    have htarget : targetAt cpu memory = i.target cpu.programCounter (leftOf cpu memory)
      (rightOf cpu memory) := by rw [targetAt, hi]; rfl
    have haccess : accessAt cpu memory = i.access (leftOf cpu memory) := by rw [accessAt, hi]; rfl
    have hta : (i.target cpu.programCounter (leftOf cpu memory) (rightOf cpu memory)).any
        (misaligned · 4) = false ↔ ∀ t ∈ i.target cpu.programCounter (leftOf cpu memory)
          (rightOf cpu memory), t.toNat % 4 = 0 := by
      cases i.target cpu.programCounter (leftOf cpu memory) (rightOf cpu memory) with
      | none => simp
      | some t => simp [misaligned_eq_false]
    simp only [trapChecks, hi, htarget, haccess, List.mem_cons, List.not_mem_nil, or_false,
      forall_eq_or_imp, forall_eq, Instr.retires, accessible_iff hm, ← hta, Option.some.injEq,
      Option.isNone_some, Bool.not_eq_true, Bool.not_eq_false', exists_eq_left',
      and_assoc, ne_eq, Bool.not_eq_true, true_and]
    cases i.access (leftOf cpu memory) with
    | none => simp
    | some a =>
      cases hs : a.store <;> simp [hs]

/-! ## Effects -/

theorem toFin_inj {r r' : BitVec 5} : (r.toFin : Fin 32) = r'.toFin ↔ r = r' :=
  ⟨BitVec.eq_of_toFin_eq, congrArg BitVec.toFin⟩

theorem hart_setX (cpu : Cpu) (memory : Memory) (rd : BitVec 5) (v : Word) :
    hart (cpu.setX rd v) memory = (hart cpu memory).setX rd v := by
  rw [Cpu.setX, State.setX]
  split_ifs with h
  · rfl
  · unfold hart
    congr 1
    funext r
    simp only [Function.update_apply]
    exact if_congr toFin_inj rfl rfl

theorem hart_writeback (cpu : Cpu) (memory : Memory) (rd : Option (BitVec 5)) (v : Word) :
    hart (cpu.writeback rd v) memory = (hart cpu memory).writeback rd v := by
  cases rd with
  | none => rfl
  | some rd => exact hart_setX cpu memory rd v

theorem stored_at (o : StoreOp) {memory : Memory} (hm : memoryReady memory = true) {a : Word}
    (hr : inRam memory a o.width = true) (right : Word) :
    (stored memory right ⟨true, o.width, a⟩).at = o.write memory.at a right := by
  have hb := (inRam_iff hm a o.width).mp hr
  have hs := memoryReady_isSome hm
  have hsize := ((memorySizeValid_iff memory.size).mp (memoryReady_size hm)).2.1
  funext b
  have hlt := b.isLt
  rw [stored, if_pos rfl, bytes_storeValue right (isWidth_store o), Memory.at,
    Memory.byte_splice hs (by rwa [LittleEndian.length_bytes]), LittleEndian.length_bytes,
    StoreOp.write]
  change (if a.toNat ≤ b.toNat ∧ b.toNat < a.toNat + o.width then
    (LittleEndian.bytes o.width right.toNat).getD (b.toNat - a.toNat) 0 else memory.at b) = _
  by_cases hin : a.toNat ≤ b.toNat ∧ b.toNat < a.toNat + o.width
  · have hsub : (b - a).toNat = b.toNat - a.toNat := BitVec.toNat_sub_of_le hin.1
    rw [if_pos hin, hsub, if_pos (by omega), LittleEndian.getD_bytes (by omega)]
    apply BitVec.eq_of_toNat_eq
    rw [BitVec.toNat_ofNat, BitVec.extractLsb'_toNat, Nat.shiftRight_eq_div_pow, pow_mul]
    rfl
  · have hge : ¬ (b - a).toNat < o.width := by
      rw [BitVec.toNat_sub]
      omega
    rw [if_neg hin, if_neg hge]

theorem hart_after {cpu : Cpu} {memory : Memory} (hm : memoryReady memory = true) {i : Instr}
    {a : Attempt} (hr : i.retires memory.size cpu.programCounter (leftOf cpu memory)
      (rightOf cpu memory)) (h : Retired cpu memory i a) :
    hart a.cpu a.memory =
      (hart cpu memory).after (leftOf cpu memory) (rightOf cpu memory) i := by
  have hmem : a.memory.at = i.store? memory.at (leftOf cpu memory) (rightOf cpu memory) := by
    rw [h.memoryAfter, accessOf]
    cases i with
    | store o rs1 rs2 imm =>
      have hacc := ((accessible_iff hm _ _).mp (hr.2.2.2 _ rfl)).2
      exact stored_at o hm hacc (rightOf cpu memory)
    | _ => rfl
  have hretire (c : Cpu) (pc : Word) :
      hart (c.retire pc) a.memory = (hart c a.memory).retire pc := rfl
  have hframe : hart cpu a.memory = { hart cpu memory with mem := a.memory.at } := rfl
  rw [h.cpuAfter, hretire, hart_writeback, hframe, hmem]
  rfl

/-! ## One step -/

/-- A step that the reference takes is taken, with the same registers, program counter, count and
bytes; a step that the reference refuses changes nothing. -/
def StepRefines (cpu : Cpu) (memory : Memory) : Prop :=
  match Rv32i.step memory.size (hart cpu memory) with
  | some s => (cpuStep cpu memory).1 = .ok ∧
      hart (cpuStep cpu memory).2.1 (cpuStep cpu memory).2.2 = s ∧
      (cpuStep cpu memory).2.1.halted = false ∧ (cpuStep cpu memory).2.2.size = memory.size
  | none => (cpuStep cpu memory).1 ≠ .ok ∧ (cpuStep cpu memory).2 = (cpu, memory)

theorem size_stored (memory : Memory) (right : Word) (a : Rv32i.Access) :
    (stored memory right a).size = memory.size := by
  unfold stored
  split_ifs <;> rfl

theorem step_hart_iff (cpu : Cpu) (memory : Memory) (s : State) :
    Rv32i.step memory.size (hart cpu memory) = some s ↔
      accessible memory.size cpu.programCounter 4 ∧ ∃ i, instrAt cpu memory = some i ∧
        i.retires memory.size cpu.programCounter (leftOf cpu memory) (rightOf cpu memory) ∧
        (hart cpu memory).after (leftOf cpu memory) (rightOf cpu memory) i = s :=
  Rv32i.step_iff

theorem cpuStep_refines {cpu : Cpu} {memory : Memory} (hh : cpu.halted = false)
    (hm : memoryReady memory = true) : StepRefines cpu memory := by
  have hout := cpuStepRecorded_outcome hh memory
  unfold Outcome at hout
  rw [StepRefines]
  cases hf : firstTrap cpu memory with
  | some c =>
    rw [hf] at hout
    -- a step of the architecture passes every check, so a trap means there is none
    have hnone : Rv32i.step memory.size (hart cpu memory) = none := by
      rw [Option.eq_none_iff_forall_ne_some]
      intro s hs
      obtain ⟨hacc, i, hi, hr, -⟩ := (step_hart_iff cpu memory s).mp hs
      rw [(firstTrap_eq_none_iff hm).mpr ⟨hacc, i, hi, hr⟩] at hf
      cases hf
    rw [hnone]
    refine ⟨?_, Prod.ext hout.sameCpu hout.sameMemory⟩
    intro hok
    exact (firstTrap_result hf).1 (hout.result.symm.trans hok)
  | none =>
    rw [hf] at hout
    obtain ⟨i, hi, hret⟩ := hout
    obtain ⟨hacc, j, hj, hr⟩ := (firstTrap_eq_none_iff hm).mp hf
    obtain rfl : i = j := Option.some.inj (hi.symm.trans hj)
    rw [(step_hart_iff cpu memory _).mpr ⟨hacc, i, hi, hr, rfl⟩]
    refine ⟨hret.result, hart_after hm hr hret, ?_, ?_⟩
    · exact (congrArg Cpu.halted hret.cpuAfter).trans ((Cpu.writeback_halted _ _ _).trans hh)
    · refine (congrArg Memory.size hret.memoryAfter).trans ?_
      cases accessOf cpu memory i with
      | none => rfl
      | some a => exact size_stored memory (rightOf cpu memory) a

theorem cpuStep_refines_addi :
    (cpuStep {} ⟨some [0x93, 0x80, 0x50, 0x00], 4, by simp⟩).1 = .ok ∧
      StepRefines {} ⟨some [0x93, 0x80, 0x50, 0x00], 4, by simp⟩ :=
  ⟨by decide, cpuStep_refines rfl (by decide)⟩

end Riscv32
