import Riscv32Simulator.Execution.Outcome
import Riscv32Simulator.Source.Machine

/-! `machine_step` by its three outcomes, and what it never touches. -/

namespace Riscv32

/-! ## Attempts -/

theorem cpuStepRecorded_not_ok {cpu : Cpu} {memory : Memory}
    (h : (cpuStepRecorded cpu memory).result ≠ .ok) :
    (cpuStepRecorded cpu memory).cpu = cpu ∧ (cpuStepRecorded cpu memory).memory = memory := by
  rcases cpuStepRecorded_cases cpu memory with hh | ⟨c, -, ht⟩ | ⟨-, i, -, hr⟩
  · rw [cpuStepRecorded_halted hh]
    exact ⟨rfl, rfl⟩
  · exact ⟨ht.sameCpu, ht.sameMemory⟩
  · exact absurd hr.result h

/-- An attempt leaves the RAM alone or splices one run of bytes into it. -/
theorem cpuStepRecorded_memory (cpu : Cpu) (memory : Memory) :
    (cpuStepRecorded cpu memory).memory = memory ∨
      ∃ a ys, (cpuStepRecorded cpu memory).memory = memory.splice a ys := by
  rcases cpuStepRecorded_cases cpu memory with hh | ⟨c, -, ht⟩ | ⟨-, i, -, hr⟩
  · rw [cpuStepRecorded_halted hh]
    exact .inl rfl
  · exact .inl ht.sameMemory
  · rw [hr.memoryAfter]
    cases accessOf cpu memory i with
    | none => exact .inl rfl
    | some a =>
      rw [Option.elim, stored]
      split_ifs
      · exact .inr ⟨_, _, rfl⟩
      · exact .inl rfl

theorem cpuStepRecorded_size (cpu : Cpu) (memory : Memory) :
    (cpuStepRecorded cpu memory).memory.size = memory.size := by
  rcases cpuStepRecorded_memory cpu memory with h | ⟨a, ys, h⟩ <;> rw [h]
  rfl

theorem cpuStepRecorded_ready (cpu : Cpu) (memory : Memory) :
    memoryReady (cpuStepRecorded cpu memory).memory = memoryReady memory := by
  rcases cpuStepRecorded_memory cpu memory with h | ⟨a, ys, h⟩ <;> rw [h]
  exact memoryReady_splice memory a ys

/-! ## One machine step -/

/-- The attempt that `machine_step` makes: a manual halt is lifted first. -/
def machineAttempt (m : Machine) : Attempt := cpuStepRecorded { m.cpu with halted := false } m.memory

def isExit (m : Machine) : Prop :=
  (machineAttempt m).result = .ecall ∧ m.cpu.registers 17 = 93#32

def active (m : Machine) : Prop := m.loaded = true ∧ m.exited = false

def retiredMachine (m : Machine) : Machine :=
  { m with cpu := (machineAttempt m).cpu, memory := (machineAttempt m).memory }

def resumedMachine (m : Machine) : Machine := { m with cpu := { m.cpu with halted := false } }

def exitedMachine (m : Machine) : Machine :=
  { resumedMachine m with exited := true, exitCode := m.cpu.registers 10 }

def runOf (m : Machine) (reason : MachineStop) (retired : ℕ) : MachineRun where
  reason := reason
  attempts := 1
  retired := retired
  last := (machineAttempt m).record

theorem machineStep_eq {m : Machine} (h : active m) : machineStep m =
    if (machineAttempt m).result = .ok then (runOf m .ready 1, retiredMachine m)
    else if (machineAttempt m).result = .ecall ∧
        (machineAttempt m).cpu.registers 17 = 93#32 then
      (runOf m .exited 0, { retiredMachine m with
        exited := true, exitCode := (machineAttempt m).cpu.registers 10 })
    else (runOf m .trap 0, retiredMachine m) := by
  refine (if_neg (by simp [h.1])).trans ((if_neg (by simp [h.2])).trans ?_)
  rfl

theorem machineAttempt_not_ok {m : Machine} (h : (machineAttempt m).result ≠ .ok) :
    (machineAttempt m).cpu = { m.cpu with halted := false } ∧
      (machineAttempt m).memory = m.memory :=
  cpuStepRecorded_not_ok h

theorem retiredMachine_of_not_ok {m : Machine} (h : (machineAttempt m).result ≠ .ok) :
    retiredMachine m = resumedMachine m := by
  obtain ⟨hc, hm⟩ := machineAttempt_not_ok h
  rw [retiredMachine, hc, hm]
  rfl

theorem machineStep_ok {m : Machine} (h : active m) (hr : (machineAttempt m).result = .ok) :
    machineStep m = (runOf m .ready 1, retiredMachine m) := by
  rw [machineStep_eq h, if_pos hr]

theorem machineStep_exit {m : Machine} (h : active m) (hr : isExit m) :
    machineStep m = (runOf m .exited 0, exitedMachine m) := by
  have hne : (machineAttempt m).result ≠ .ok := by rw [hr.1]; nofun
  have hc : (machineAttempt m).cpu.registers = m.cpu.registers := by
    rw [(machineAttempt_not_ok hne).1]
  rw [machineStep_eq h, if_neg hne, hc, retiredMachine_of_not_ok hne]
  exact if_pos hr

theorem machineStep_trap {m : Machine} (h : active m) (hr : (machineAttempt m).result ≠ .ok)
    (he : ¬ isExit m) : machineStep m = (runOf m .trap 0, resumedMachine m) := by
  have hc : (machineAttempt m).cpu.registers = m.cpu.registers := by
    rw [(machineAttempt_not_ok hr).1]
  rw [machineStep_eq h, if_neg hr, hc, retiredMachine_of_not_ok hr]
  exact if_neg he

theorem machineStep_inactive {m : Machine} (h : ¬ active m) :
    machineStep m = ({ reason := if m.loaded then .exited else .noProgram }, m) := by
  cases hl : m.loaded with
  | false => exact if_pos (by rw [hl]; rfl)
  | true =>
    have he : m.exited = true := by
      by_contra he
      exact h ⟨hl, Bool.eq_false_iff.mpr he⟩
    exact (if_neg (by rw [hl]; decide)).trans (if_pos he)

theorem machineStep_cases (m : Machine) :
    (¬ active m ∧ machineStep m = ({ reason := if m.loaded then .exited else .noProgram }, m)) ∨
    (active m ∧ (machineAttempt m).result = .ok ∧
      machineStep m = (runOf m .ready 1, retiredMachine m)) ∨
    (active m ∧ isExit m ∧ machineStep m = (runOf m .exited 0, exitedMachine m)) ∨
    (active m ∧ (machineAttempt m).result ≠ .ok ∧ ¬ isExit m ∧
      machineStep m = (runOf m .trap 0, resumedMachine m)) := by
  by_cases h : active m
  · by_cases hr : (machineAttempt m).result = .ok
    · exact .inr (.inl ⟨h, hr, machineStep_ok h hr⟩)
    · by_cases he : isExit m
      · exact .inr (.inr (.inl ⟨h, he, machineStep_exit h he⟩))
      · exact .inr (.inr (.inr ⟨h, hr, he, machineStep_trap h hr he⟩))
  · exact .inl ⟨h, machineStep_inactive h⟩

theorem machineStep_attempt {m : Machine} (h : active m) :
    (machineStep m).1.attempts = 1 ∧ (machineStep m).1.last = (machineAttempt m).record := by
  rcases machineStep_cases m with ⟨hn, -⟩ | ⟨-, -, hs⟩ | ⟨-, -, hs⟩ | ⟨-, -, -, hs⟩
  · exact absurd h hn
  all_goals
    rw [hs]
    exact ⟨rfl, rfl⟩

theorem machineStep_resumed {m : Machine} (h : active m) :
    machineStep (resumedMachine m) = machineStep m := by
  have hr : active (resumedMachine m) := h
  rw [machineStep_eq h, machineStep_eq hr]
  rfl

end Riscv32
