import Riscv32Simulator.Control.Step

/-! Traps are precise and atomic: the first failing check is reported, nothing has moved, and a
machine that trapped reports the same trap when it is stepped again. -/

namespace Riscv32

/-- An attempt that did not retire: state and record are those from before it. -/
structure Unmoved (cpu : Cpu) (memory : Memory) (a : Attempt) : Prop where
  sameCpu : a.cpu = cpu
  sameMemory : a.memory = memory
  unwritten : a.record.reg.written = false
  incomplete : a.record.memory.completed = false
  notTaken : a.record.branchTaken = false
  samePc : a.record.pcAfter = a.record.pcBefore
  sameCount : a.record.countAfter = a.record.countBefore

def Reports (cpu : Cpu) (memory : Memory) (a : Attempt) : Prop :=
  match firstTrap cpu memory with
  | none => a.result = .ok
  | some c => a.result = c.result ∧ a.record.trap.raised = true ∧ a.record.trap.cause = c.cause ∧
      a.record.trap.value = c.value ∧ a.record.trap.instructionAddress = cpu.programCounter

theorem Trapped.unmoved {cpu : Cpu} {memory : Memory} {c : TrapCheck}
    (h : Trapped cpu memory c (cpuStepRecorded cpu memory)) :
    Unmoved cpu memory (cpuStepRecorded cpu memory) := by
  have hpc : (cpuStepRecorded cpu memory).record.pcAfter =
      (cpuStepRecorded cpu memory).cpu.programCounter := rfl
  have hcount : (cpuStepRecorded cpu memory).record.countAfter =
      (cpuStepRecorded cpu memory).cpu.instructionCount := rfl
  refine ⟨h.sameCpu, h.sameMemory, by rw [h.reg], h.incomplete, h.notTaken, ?_, ?_⟩
  · rw [hpc, h.sameCpu, h.before.1]
  · rw [hcount, h.sameCpu, h.before.2]

theorem cpuStepRecorded_unmoved {cpu : Cpu} {memory : Memory}
    (h : (cpuStepRecorded cpu memory).result ≠ .ok) :
    Unmoved cpu memory (cpuStepRecorded cpu memory) := by
  rcases cpuStepRecorded_cases cpu memory with hh | ⟨c, -, ht⟩ | ⟨-, i, -, hr⟩
  · rw [cpuStepRecorded_halted hh]
    exact ⟨rfl, rfl, rfl, rfl, rfl, rfl, rfl⟩
  · exact ht.unmoved
  · exact absurd hr.result h

theorem cpuStepRecorded_reports {cpu : Cpu} (hh : cpu.halted = false) (memory : Memory) :
    Reports cpu memory (cpuStepRecorded cpu memory) := by
  unfold Reports
  rcases cpuStepRecorded_cases cpu memory with hh' | ⟨c, hf, ht⟩ | ⟨hf, i, -, hr⟩
  · nomatch hh.symm.trans hh'
  · rw [hf]
    have htrap := ht.trap
    exact ⟨ht.result, by rw [htrap], by rw [htrap], by rw [htrap], by rw [htrap]⟩
  · rw [hf]
    exact hr.result

theorem cpuStepRecorded_halted_iff (cpu : Cpu) (memory : Memory) :
    (cpuStepRecorded cpu memory).result = .halted ↔ cpu.halted = true := by
  refine ⟨fun h => ?_, fun hh => by rw [cpuStepRecorded_halted hh]⟩
  rcases cpuStepRecorded_cases cpu memory with hh | ⟨c, hf, ht⟩ | ⟨-, i, -, hr⟩
  · exact hh
  · exact absurd (ht.result.symm.trans h) (firstTrap_result hf).2.1
  · nomatch hr.result.symm.trans h

theorem machineStep_reason_trap {m : Machine} (h : (machineStep m).1.reason = .trap) :
    active m ∧ (machineStep m).2 = resumedMachine m := by
  rcases machineStep_cases m with ⟨-, hs⟩ | ⟨-, -, hs⟩ | ⟨-, -, hs⟩ | ⟨ha, -, -, hs⟩
  · rw [hs] at h
    cases hl : m.loaded <;> simp [hl] at h
  · rw [hs] at h
    nomatch h
  · rw [hs] at h
    nomatch h
  · exact ⟨ha, by rw [hs]⟩

theorem machineStep_trap_repeats {m : Machine} (h : (machineStep m).1.reason = .trap) (n : ℕ) :
    (fun r : MachineRun × Machine => machineStep r.2)^[n] (machineStep m) = machineStep m := by
  obtain ⟨ha, hs⟩ := machineStep_reason_trap h
  have hfix : machineStep (machineStep m).2 = machineStep m := by rw [hs, machineStep_resumed ha]
  exact Function.iterate_fixed hfix n

/-- An attempt that does not retire changes nothing and reports the first failing check, whatever
the CPU and the RAM are; a halted CPU reports no trap. -/
theorem traps_precise_and_atomic (cpu : Cpu) (memory : Memory) (m : Machine) :
    ((cpuStepRecorded cpu memory).result ≠ .ok →
      Unmoved cpu memory (cpuStepRecorded cpu memory)) ∧
    ((cpuStepRecorded cpu memory).result = .halted ↔ cpu.halted = true) ∧
    (cpu.halted = true → (cpuStepRecorded cpu memory).record.trap.raised = false) ∧
    (cpu.halted = false → Reports cpu memory (cpuStepRecorded cpu memory)) ∧
    ((machineStep m).1.reason = .trap → (machineStep m).2 = resumedMachine m ∧
      ∀ n, (fun r : MachineRun × Machine => machineStep r.2)^[n] (machineStep m) =
        machineStep m) := by
  refine ⟨cpuStepRecorded_unmoved, cpuStepRecorded_halted_iff cpu memory, ?_,
    fun hh => cpuStepRecorded_reports hh memory,
    fun h => ⟨(machineStep_reason_trap h).2, machineStep_trap_repeats h⟩⟩
  intro hh
  rw [cpuStepRecorded_halted hh]

theorem traps_precise_at_misaligned_pc :
    Unmoved { programCounter := 2 } Memory.empty
      (cpuStepRecorded { programCounter := 2 } Memory.empty) ∧
    Reports { programCounter := 2 } Memory.empty
      (cpuStepRecorded { programCounter := 2 } Memory.empty) ∧
    (machineStep (machineStep { memory := Memory.zeroed 4, loaded := true }).2) =
      machineStep { memory := Memory.zeroed 4, loaded := true } :=
  have h := traps_precise_and_atomic { programCounter := 2 } Memory.empty
    { memory := Memory.zeroed 4, loaded := true }
  ⟨h.1 (by decide), h.2.2.2.1 rfl, (h.2.2.2.2 (by decide)).2 1⟩

end Riscv32
