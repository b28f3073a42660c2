import Riscv32Simulator.Control.Accounting
import Riscv32Simulator.Control.Schedule

/-! What the callbacks of a run leave in their context: the records of its attempts, folded in one
after another. -/

namespace Riscv32
open LabelledRun Iterated

theorem RunsTo.run {n : ℕ} {m final : Machine} {rs : List CpuStepRecord} {reason : MachineStop}
    (h : RunsTo n m rs reason final) :
    Run nextAttempt (resumedMachine m) rs (resumedMachine final) := by
  induction h with
  | limit m => exact .nil _
  | stopped n m => exact .nil _
  | ended n m ha hr => exact Run.single (nextAttempt_active ha)
  | ready hr _ ih => exact .cons (nextAttempt_active (machineStep_active_of_ready hr).1) ih

section Folds

variable {σ τ : Type} {shouldStop : Option (σ → Bool × σ)} {trace : Option (CpuStepRecord → σ → σ)}

/-- Asking leaves a part of the context alone, and tracing a record folds it into that part. -/
structure Folds (shouldStop : Option (σ → Bool × σ)) (trace : Option (CpuStepRecord → σ → σ))
    (part : σ → τ) (fold : τ → CpuStepRecord → τ) : Prop where
  asked : ∀ c, part (askStop shouldStop c).2 = part c
  traced : ∀ one c, one.attempts = 1 → part (traceAttempt trace one c) = fold (part c) one.last

variable {part : σ → τ} {fold : τ → CpuStepRecord → τ}

theorem machineRunLoop_folds (h : Folds shouldStop trace part fold) (n : ℕ) (total : MachineRun)
    {m : Machine} (ha : active m) (c : σ) : ∃ rs reason final c', RunsTo n m rs reason final ∧
      machineRunLoop shouldStop trace n total m c = (total.through rs reason, final, c') ∧
      part c' = rs.foldl fold (part c) := by
  induction n generalizing total m c with
  | zero => exact ⟨[], .limit, m, c, .limit m, rfl, rfl⟩
  | succ n ih =>
    have hasked := h.asked c
    rw [machineRunLoop_succ]
    generalize askStop shouldStop c = asked at hasked ⊢
    obtain ⟨stop, c₁⟩ := asked
    dsimp only at hasked ⊢
    cases stop with
    | true => exact ⟨[], .stopped, machineStop m, c₁, .stopped n m, rfl, hasked⟩
    | false =>
      have htraced := h.traced (machineStep m).1 c₁ (machineStep_attempt ha).1
      rw [hasked] at htraced
      rw [if_neg Bool.false_ne_true]
      by_cases hr : (machineStep m).1.reason ≠ .ready
      · rw [if_pos hr]
        refine ⟨_, _, _, _, .ended n m ha hr, ?_, htraced⟩
        rw [← add_through ha]
        rfl
      · have hready := not_not.mp hr
        rw [if_neg hr]
        obtain ⟨rs, reason, final, c', hruns, hloop, hpart⟩ :=
          ih (total.add (machineStep m).1) (machineStep_active_of_ready hready).2
            (traceAttempt trace (machineStep m).1 c₁)
        rw [add_through ha] at hloop
        rw [htraced] at hpart
        exact ⟨_, reason, final, c', .ready hready hruns, hloop, hpart⟩

theorem machineRun_folds (h : Folds shouldStop trace part fold) (m : Machine) (limit : ℕ) (c : σ) :
    ∃ rs run final c', machineRun m limit shouldStop trace c = (run, final, c') ∧
      Run nextAttempt (resumedMachine m) rs (resumedMachine final) ∧
      part c' = rs.foldl fold (part c) := by
  by_cases ha : active m ∧ limit ≠ 0
  · obtain ⟨rs, reason, final, c', hruns, hloop, hpart⟩ :=
      machineRunLoop_folds h limit {} ha.1 c
    rw [machineRun_active _ _ ha.1 ha.2, hloop]
    exact ⟨rs, _, _, _, rfl, hruns.run, hpart⟩
  · rw [machineRun_inactive _ _ ha]
    exact ⟨[], _, _, _, rfl, .nil _, rfl⟩

end Folds

end Riscv32
