import Riscv32Simulator.Control.Accounting

/-! Runs whose stop callback always says no: they end with the attempt that does not retire, or with
the limit. -/

namespace Riscv32
open Iterated

section Never

variable {σ : Type} {shouldStop : Option (σ → Bool × σ)} (trace : Option (CpuStepRecord → σ → σ))

def NeverStops (shouldStop : Option (σ → Bool × σ)) : Prop := ∀ c, (askStop shouldStop c).1 = false

theorem machineRunLoop_ready (h : NeverStops shouldStop) (n k : ℕ) (total : MachineRun) {m : Machine}
    (c : σ) (hready : ∀ j < n, (label machineStep j m).reason = .ready) :
    ∃ total' c', machineRunLoop shouldStop trace (n + k) total m c =
        machineRunLoop shouldStop trace k total' (after machineStep n m) c' ∧
      total'.attempts = total.attempts + n ∧ total'.retired = total.retired + n := by
  induction n generalizing total m c with
  | zero =>
    rw [Nat.zero_add]
    exact ⟨total, c, rfl, rfl, rfl⟩
  | succ n ih =>
    have hfirst : (machineStep m).1.reason = .ready := hready 0 (Nat.succ_pos n)
    have ha := (machineStep_active_of_ready hfirst).1
    have hok := (machineStep_ready_iff ha).mp hfirst
    have hrest : ∀ j < n, (label machineStep j (machineStep m).2).reason = .ready := by
      intro j hj
      rw [← label_succ]
      exact hready (j + 1) (Nat.succ_lt_succ hj)
    obtain ⟨total', c', hloop, hattempts, hretired⟩ := ih (total.add (machineStep m).1)
      (traceAttempt trace (machineStep m).1 (askStop shouldStop c).2) hrest
    have hone : retiredOf [(machineStep m).1.last] = 1 := by simp [retiredOf, hok]
    refine ⟨total', c', ?_, ?_, ?_⟩
    · rw [Nat.add_right_comm, machineRunLoop_succ, h c, if_neg Bool.false_ne_true,
        if_neg (not_not.mpr hfirst), hloop, after_succ]
    · rw [hattempts, MachineRun.add, (machineStep_attempt ha).1, Nat.add_assoc, Nat.add_comm 1]
    · rw [hretired, MachineRun.add, machineStep_retired ha, hone, Nat.add_assoc, Nat.add_comm 1]

theorem machineRun_first {m : Machine} {n limit : ℕ} (h : NeverStops shouldStop) (ha : active m) (c : σ)
    (hready : ∀ j < n, (label machineStep j m).reason = .ready) (hlimit : n < limit)
    (hlast : active (after machineStep n m)) (hend : (label machineStep n m).reason ≠ .ready) :
    ∃ run c', machineRun m limit shouldStop trace c = (run, after machineStep (n + 1) m, c') ∧
      run.reason = (label machineStep n m).reason ∧ run.attempts = n + 1 ∧ run.retired = n := by
  obtain ⟨k, rfl⟩ : ∃ k, limit = n + (k + 1) := ⟨limit - (n + 1), by omega⟩
  obtain ⟨total, c', hloop, hattempts, hretired⟩ :=
    machineRunLoop_ready trace h n (k + 1) {} c hready
  have hstep : (machineStep (after machineStep n m)).1.reason ≠ .ready := hend
  have hnone : (machineStep (after machineStep n m)).1.retired = 0 := by
    rw [machineStep_retired hlast]
    have hne := mt (machineStep_ready_iff hlast).mpr hend
    simp [retiredOf, hne]
  rw [machineRun_active _ _ ha (by omega), hloop, machineRunLoop_succ, h c',
    if_neg Bool.false_ne_true, if_pos hstep, ← after_succ']
  refine ⟨_, _, rfl, rfl, ?_, ?_⟩
  · change total.attempts + (machineStep (after machineStep n m)).1.attempts = n + 1
    rw [hattempts, (machineStep_attempt hlast).1]
    exact congrArg (· + 1) (Nat.zero_add n)
  · change total.retired + (machineStep (after machineStep n m)).1.retired = n
    rw [hretired, hnone]
    exact Nat.zero_add n

end Never

end Riscv32
