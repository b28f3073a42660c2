import Riscv32Simulator.Isa.Code
import Riscv32Simulator.Library.Iterated
import Riscv32Simulator.Execution.Refinement
import Riscv32Simulator.Control.Step

/-! A machine makes the steps of the hart that it stands for. -/

namespace Riscv32
open Iterated LabelledRun
open Rv32i (State Word traced)

/-- A machine that can be advanced and has the registers, program counter and RAM of a hart. -/
structure Mirrors (size : ℕ) (m : Machine) (s : State) : Prop where
  active : active m
  ready : memoryReady m.memory = true
  size : m.memory.size = size
  hart : hart m.cpu m.memory = s

structure RetiredAt (pc : Word) (run : MachineRun) : Prop where
  reason : run.reason = .ready
  attempts : run.attempts = 1
  retired : run.retired = 1
  trap : run.last.trap.raised = false
  pcBefore : run.last.pcBefore = pc

theorem Mirrors.step {size : ℕ} {m : Machine} {s t : State} (h : Mirrors size m s)
    (hs : Rv32i.step size s = some t) :
    RetiredAt s.pc (machineStep m).1 ∧ Mirrors size (machineStep m).2 t := by
  obtain ⟨ha, hm, rfl, rfl⟩ := h
  -- the attempt is made on the CPU with its manual halt lifted, which stands for the same hart
  have hs' : Rv32i.step m.memory.size (Riscv32.hart { m.cpu with halted := false } m.memory) = some t := hs
  obtain ⟨hacc, i, hi, hr, ht⟩ := (step_hart_iff _ _ _).mp hs'
  have hnone := (firstTrap_eq_none_iff hm).mpr ⟨hacc, i, hi, hr⟩
  rcases cpuStepRecorded_cases { m.cpu with halted := false } m.memory with
    hh | ⟨c, hc, -⟩ | ⟨-, j, hj, hret⟩
  · cases hh
  · rw [hnone] at hc
    cases hc
  · obtain rfl : i = j := Option.some.inj (hi.symm.trans hj)
    have hok : (machineAttempt m).result = .ok := hret.result
    have hsize : (machineAttempt m).memory.size = m.memory.size := cpuStepRecorded_size _ _
    have hready : memoryReady (machineAttempt m).memory = memoryReady m.memory :=
      cpuStepRecorded_ready _ _
    rw [machineStep_ok ha hok]
    refine ⟨⟨rfl, rfl, rfl, ?_, hret.before.1⟩, ⟨ha, hready.trans hm, hsize, ?_⟩⟩
    · exact congrArg Trap.raised hret.trap
    · exact (hart_after hm hr hret).trans ht

/-- A run of the hart is made by the machine, one attempt for each of its steps. -/
theorem Mirrors.run {size : ℕ} {m : Machine} {s t : State} {pcs : List Word} (h : Mirrors size m s)
    (hrun : Run (traced size) s pcs t) :
    (∀ k pc, pcs[k]? = some pc → RetiredAt pc (label machineStep k m)) ∧
      Mirrors size (after machineStep pcs.length m) t := by
  induction hrun generalizing m with
  | nil => exact ⟨by simp, h⟩
  | @cons s u t pc pcs hstep hrest ih =>
    obtain ⟨v, hv, hpair⟩ := Option.map_eq_some_iff.mp hstep
    obtain ⟨rfl, rfl⟩ := Prod.mk.inj hpair
    obtain ⟨hretired, hnext⟩ := h.step hv
    obtain ⟨hlabels, hlast⟩ := ih hnext
    constructor
    · intro k pc' hk
      cases k with
      | zero =>
        rw [List.getElem?_cons_zero] at hk
        obtain rfl := Option.some.inj hk
        exact hretired
      | succ k =>
        rw [List.getElem?_cons_succ] at hk
        rw [label_succ]
        exact hlabels k pc' hk
    · rw [List.length_cons, after_succ]
      exact hlast

end Riscv32
