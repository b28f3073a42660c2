import Riscv32Simulator.Control.Step
import Riscv32Simulator.Library.LabelledRun

/-! Every way to advance a machine makes the same attempts in the same order. -/

namespace Riscv32
open LabelledRun

def nextAttempt (m : Machine) : Option (CpuStepRecord × Machine) :=
  if m.loaded && !m.exited then
    some ((machineStep m).1.last, resumedMachine (machineStep m).2)
  else none

theorem nextAttempt_active {m : Machine} (h : active m) :
    nextAttempt (resumedMachine m) =
      some ((machineStep m).1.last, resumedMachine (machineStep m).2) := by
  have hc : ((resumedMachine m).loaded && !(resumedMachine m).exited) = true := by
    rw [show (resumedMachine m).loaded = true from h.1,
      show (resumedMachine m).exited = false from h.2]
    rfl
  rw [nextAttempt, if_pos hc, machineStep_resumed h]

theorem machineStep_active_of_ready {m : Machine} (h : (machineStep m).1.reason = .ready) :
    active m ∧ active (machineStep m).2 := by
  rcases machineStep_cases m with ⟨-, hs⟩ | ⟨ha, -, hs⟩ | ⟨-, -, hs⟩ | ⟨-, -, -, hs⟩
  · rw [hs] at h
    cases hl : m.loaded <;> simp [hl] at h
  · rw [hs]
    exact ⟨ha, ha⟩
  · rw [hs] at h
    nomatch h
  · rw [hs] at h
    nomatch h

/-! ## Ways to advance -/

/-- One call that advances a machine. The callbacks of a run work on a context of their own and
never see the machine. -/
inductive Advance : Type 1
  | step
  | run {σ : Type} (limit : ℕ) (shouldStop : Option (σ → Bool × σ))
      (trace : Option (CpuStepRecord → σ → σ)) (context : σ)
  | stop

def collecting {σ : Type} (trace : Option (CpuStepRecord → σ → σ)) :
    CpuStepRecord → σ × List CpuStepRecord → σ × List CpuStepRecord :=
  fun record c => (trace.elim c.1 fun trace => trace record c.1, c.2 ++ [record])

def onFirst {σ τ : Type} (shouldStop : σ → Bool × σ) : σ × τ → Bool × (σ × τ) :=
  fun c => ((shouldStop c.1).1, ((shouldStop c.1).2, c.2))

def collectRun {σ : Type} (m : Machine) (limit : ℕ) (shouldStop : Option (σ → Bool × σ))
    (trace : Option (CpuStepRecord → σ → σ)) (context : σ) :
    MachineRun × Machine × (σ × List CpuStepRecord) :=
  machineRun m limit (shouldStop.map onFirst) (some (collecting trace)) (context, [])

def Advance.apply (m : Machine) : Advance → Machine
  | .step => (machineStep m).2
  | .run limit shouldStop trace context => (machineRun m limit shouldStop trace context).2.1
  | .stop => machineStop m

def Advance.attempts (m : Machine) : Advance → ℕ
  | .step => (machineStep m).1.attempts
  | .run limit shouldStop trace context => (machineRun m limit shouldStop trace context).1.attempts
  | .stop => 0

def Advance.records (m : Machine) : Advance → List CpuStepRecord
  | .step => if (machineStep m).1.attempts ≠ 0 then [(machineStep m).1.last] else []
  | .run limit shouldStop trace context =>
    (collectRun m limit shouldStop trace context).2.2.2
  | .stop => []

/-! ## The loop -/

section Loop

variable {σ : Type} (shouldStop : Option (σ → Bool × σ)) (trace : Option (CpuStepRecord → σ → σ))

def MachineRun.add (total one : MachineRun) : MachineRun :=
  { total with
    attempts := total.attempts + one.attempts
    retired := total.retired + one.retired
    last := one.last }

theorem machineRunLoop_succ (n : ℕ) (total : MachineRun) (m : Machine) (c : σ) :
    machineRunLoop shouldStop trace (n + 1) total m c =
      if (askStop shouldStop c).1 then
        ({ total with reason := .stopped }, machineStop m, (askStop shouldStop c).2)
      else if (machineStep m).1.reason ≠ .ready then
        ({ total.add (machineStep m).1 with reason := (machineStep m).1.reason }, (machineStep m).2,
          traceAttempt trace (machineStep m).1 (askStop shouldStop c).2)
      else machineRunLoop shouldStop trace n (total.add (machineStep m).1) (machineStep m).2
        (traceAttempt trace (machineStep m).1 (askStop shouldStop c).2) := by
  rw [machineRunLoop]
  obtain ⟨stop, c'⟩ := askStop shouldStop c
  cases stop <;> rfl

theorem askStop_onFirst (c : σ) (log : List CpuStepRecord) :
    askStop (shouldStop.map onFirst) (c, log) =
      ((askStop shouldStop c).1, ((askStop shouldStop c).2, log)) := by
  cases shouldStop <;> rfl

theorem traceAttempt_collecting {one : MachineRun} (h : one.attempts = 1) (c : σ)
    (log : List CpuStepRecord) : traceAttempt (some (collecting trace)) one (c, log) =
      (traceAttempt trace one c, log ++ [one.last]) := by
  cases trace <;> simp [traceAttempt, collecting, h]

theorem machineRunLoop_collects (n : ℕ) (total : MachineRun) {m : Machine} (ha : active m) (c : σ)
    (log : List CpuStepRecord) :
    ∃ rs, machineRunLoop (shouldStop.map onFirst) (some (collecting trace)) n total m (c, log) =
        ((machineRunLoop shouldStop trace n total m c).1,
          (machineRunLoop shouldStop trace n total m c).2.1,
          ((machineRunLoop shouldStop trace n total m c).2.2, log ++ rs)) ∧
      (machineRunLoop shouldStop trace n total m c).1.attempts = total.attempts + rs.length ∧
      Run nextAttempt (resumedMachine m) rs
        (resumedMachine (machineRunLoop shouldStop trace n total m c).2.1) := by
  induction n generalizing total m c log with
  | zero => exact ⟨[], by rw [List.append_nil]; rfl, rfl, .nil _⟩
  | succ n ih =>
    rw [machineRunLoop_succ, machineRunLoop_succ, askStop_onFirst,
      traceAttempt_collecting trace ((machineStep_attempt ha).1)]
    cases (askStop shouldStop c).1 with
    | true => exact ⟨[], by rw [List.append_nil]; rfl, rfl, .nil _⟩
    | false =>
      have hnext := nextAttempt_active ha
      -- the record of this attempt comes first, whether or not the run goes on
      by_cases hr : (machineStep m).1.reason = .ready
      · obtain ⟨rs, h1, h2, h3⟩ := ih (total.add (machineStep m).1)
          (machineStep_active_of_ready hr).2
          (traceAttempt trace (machineStep m).1 (askStop shouldStop c).2)
          (log ++ [(machineStep m).1.last])
        refine ⟨(machineStep m).1.last :: rs, ?_, ?_, .cons hnext ?_⟩
        · simp only [hr, ne_eq, not_true_eq_false, if_false, Bool.false_eq_true, h1,
            List.append_assoc, List.singleton_append]
        · have hadd : (total.add (machineStep m).1).attempts = total.attempts + 1 := by
            rw [MachineRun.add, (machineStep_attempt ha).1]
          simp only [hr, ne_eq, not_true_eq_false, if_false, Bool.false_eq_true, h2, hadd,
            List.length_cons]
          omega
        · simpa only [hr, ne_eq, not_true_eq_false, if_false, Bool.false_eq_true] using h3
      · refine ⟨[(machineStep m).1.last], ?_, ?_, ?_⟩
        · simp only [hr, ne_eq, not_false_eq_true, if_true, Bool.false_eq_true, if_false]
        · simp only [hr, ne_eq, not_false_eq_true, if_true, Bool.false_eq_true, if_false,
            MachineRun.add, (machineStep_attempt ha).1, List.length_singleton]
        · simpa only [hr, ne_eq, not_false_eq_true, if_true, Bool.false_eq_true, if_false] using
            Run.single hnext

theorem machineRun_active {m : Machine} (ha : active m) {n : ℕ} (hn : n ≠ 0) (c : σ) :
    machineRun m n shouldStop trace c = machineRunLoop shouldStop trace n {} m c := by
  rw [machineRun, if_neg hn, ha.1, ha.2]
  rfl

theorem machineRun_inactive {m : Machine} {n : ℕ} (h : ¬ (active m ∧ n ≠ 0)) (c : σ) :
    machineRun m n shouldStop trace c =
      ({ reason := if n = 0 then .invalidArgument else if m.loaded then .exited else .noProgram },
        m, c) := by
  unfold machineRun
  by_cases hn : n = 0
  · rw [if_pos hn, if_pos hn]
  · rw [if_neg hn, if_neg hn]
    cases hl : m.loaded with
    | false => rfl
    | true =>
      cases he : m.exited with
      | true => rfl
      | false => exact absurd ⟨⟨hl, he⟩, hn⟩ h

theorem collectRun_eq (m : Machine) (n : ℕ) (c : σ) :
    ∃ rs, collectRun m n shouldStop trace c =
        ((machineRun m n shouldStop trace c).1, (machineRun m n shouldStop trace c).2.1,
          ((machineRun m n shouldStop trace c).2.2, rs)) ∧
      (machineRun m n shouldStop trace c).1.attempts = rs.length ∧
      Run nextAttempt (resumedMachine m) rs
        (resumedMachine (machineRun m n shouldStop trace c).2.1) := by
  unfold collectRun
  by_cases h : active m ∧ n ≠ 0
  · rw [machineRun_active _ _ h.1 h.2, machineRun_active _ _ h.1 h.2]
    obtain ⟨rs, h1, h2, h3⟩ := machineRunLoop_collects shouldStop trace n {} h.1 c []
    exact ⟨rs, h1, h2.trans (Nat.zero_add _), h3⟩
  · rw [machineRun_inactive _ _ h, machineRun_inactive _ _ h]
    exact ⟨[], rfl, rfl, .nil _⟩

end Loop

/-! ## Schedules -/

theorem Advance.isRun (a : Advance) (m : Machine) :
    (a.records m).length = a.attempts m ∧
      Run nextAttempt (resumedMachine m) (a.records m) (resumedMachine (a.apply m)) := by
  cases a with
  | step =>
    unfold Advance.records Advance.attempts Advance.apply
    by_cases h : active m
    · rw [(machineStep_attempt h).1]
      exact ⟨rfl, Run.single (nextAttempt_active h)⟩
    · rw [machineStep_inactive h]
      exact ⟨rfl, .nil _⟩
  | run limit shouldStop trace context =>
    obtain ⟨rs, h1, h2, h3⟩ := collectRun_eq shouldStop trace m limit context
    rw [Advance.records, Advance.attempts, Advance.apply, h1]
    exact ⟨h2.symm, h3⟩
  | stop => exact ⟨rfl, .nil _⟩

def applyAll (m : Machine) : List Advance → Machine
  | [] => m
  | a :: as => applyAll (a.apply m) as

def attemptsAll (m : Machine) : List Advance → ℕ
  | [] => 0
  | a :: as => a.attempts m + attemptsAll (a.apply m) as

def recordsAll (m : Machine) : List Advance → List CpuStepRecord
  | [] => []
  | a :: as => a.records m ++ recordsAll (a.apply m) as

theorem applyAll_run (m : Machine) (as : List Advance) :
    (recordsAll m as).length = attemptsAll m as ∧
      Run nextAttempt (resumedMachine m) (recordsAll m as) (resumedMachine (applyAll m as)) := by
  induction as generalizing m with
  | nil => exact ⟨rfl, .nil _⟩
  | cons a as ih =>
    obtain ⟨h1, h2⟩ := a.isRun m
    obtain ⟨h3, h4⟩ := ih (a.apply m)
    exact ⟨by rw [recordsAll, attemptsAll, List.length_append, h1, h3], h2.append h4⟩

/-- The number of attempts determines the records and, up to a manual halt, the machine. -/
theorem schedule_determined {m : Machine} {as bs : List Advance}
    (h : attemptsAll m as = attemptsAll m bs) :
    recordsAll m as = recordsAll m bs ∧
      resumedMachine (applyAll m as) = resumedMachine (applyAll m bs) := by
  obtain ⟨ha, hra⟩ := applyAll_run m as
  obtain ⟨hb, hrb⟩ := applyAll_run m bs
  exact hra.unique hrb (by rw [ha, hb, h])

/-! ## Runs in two parts -/

section Split

variable {σ : Type} (trace : Option (CpuStepRecord → σ → σ))

theorem machineStep_reason_ne_limit (m : Machine) : (machineStep m).1.reason ≠ .limit := by
  rcases machineStep_cases m with ⟨-, hs⟩ | ⟨-, -, hs⟩ | ⟨-, -, hs⟩ | ⟨-, -, -, hs⟩ <;> rw [hs]
  · cases hl : m.loaded <;> simp
  all_goals nofun

theorem machineRunLoop_none_succ (n : ℕ) (total : MachineRun) (m : Machine) (c : σ) :
    machineRunLoop none trace (n + 1) total m c =
      if (machineStep m).1.reason ≠ .ready then
        ({ total.add (machineStep m).1 with reason := (machineStep m).1.reason }, (machineStep m).2,
          traceAttempt trace (machineStep m).1 c)
      else machineRunLoop none trace n (total.add (machineStep m).1) (machineStep m).2
        (traceAttempt trace (machineStep m).1 c) :=
  machineRunLoop_succ none trace n total m c

theorem machineRunLoop_total (n : ℕ) (total : MachineRun) (m : Machine) (c : σ) :
    machineRunLoop none trace (n + 1) total m c =
      ({ total.add (machineRunLoop none trace (n + 1) {} m c).1 with
          reason := (machineRunLoop none trace (n + 1) {} m c).1.reason },
        (machineRunLoop none trace (n + 1) {} m c).2) := by
  induction n generalizing total m c with
  | zero =>
    rw [machineRunLoop_none_succ, machineRunLoop_none_succ]
    split_ifs
    · simp [MachineRun.add]
    · simp [MachineRun.add, machineRunLoop]
  | succ n ih =>
    rw [machineRunLoop_none_succ, machineRunLoop_none_succ trace (n + 1) {}]
    split_ifs
    · simp [MachineRun.add]
    · rw [ih (total.add (machineStep m).1), ih (MachineRun.add {} (machineStep m).1)]
      simp [MachineRun.add, Nat.add_assoc]

theorem machineRunLoop_add (n k : ℕ) (total : MachineRun) {m : Machine} (ha : active m) (c : σ)
    (h : (machineRunLoop none trace n total m c).1.reason = .limit) :
    active (machineRunLoop none trace n total m c).2.1 ∧
      machineRunLoop none trace (n + (k + 1)) total m c =
        machineRunLoop none trace (k + 1) (machineRunLoop none trace n total m c).1
          (machineRunLoop none trace n total m c).2.1
          (machineRunLoop none trace n total m c).2.2 := by
  induction n generalizing total m c with
  | zero =>
    refine ⟨ha, ?_⟩
    rw [Nat.zero_add, machineRunLoop_total trace k total,
      machineRunLoop_total trace k (machineRunLoop none trace 0 total m c).1]
    rfl
  | succ n ih =>
    rw [Nat.add_right_comm, machineRunLoop_none_succ, machineRunLoop_none_succ]
    rw [machineRunLoop_none_succ] at h
    by_cases hr : (machineStep m).1.reason = .ready
    · rw [if_neg (not_not.mpr hr)] at h ⊢
      rw [if_neg (not_not.mpr hr)]
      exact ih _ (machineStep_active_of_ready hr).2 _ h
    · rw [if_pos hr] at h
      exact absurd h (machineStep_reason_ne_limit m)

/-- A run that reaches its limit and a second run are one run with the sum of the limits. -/
theorem machineRun_add {m : Machine} {n k : ℕ} (hn : 1 ≤ n) (hk : 1 ≤ k) (c : σ)
    (h : (machineRun m n none trace c).1.reason = .limit) :
    machineRun m (n + k) none trace c =
      ({ (machineRun m n none trace c).1.add (machineRun (machineRun m n none trace c).2.1 k none
            trace (machineRun m n none trace c).2.2).1 with
          reason := (machineRun (machineRun m n none trace c).2.1 k none trace
            (machineRun m n none trace c).2.2).1.reason },
        (machineRun (machineRun m n none trace c).2.1 k none trace
          (machineRun m n none trace c).2.2).2) := by
  have hn0 : n ≠ 0 := by omega
  have ha : active m := by
    by_contra ha
    rw [machineRun_inactive _ _ (fun hc => ha hc.1), if_neg hn0] at h
    cases hl : m.loaded <;> simp [hl] at h
  obtain ⟨k, rfl⟩ : ∃ j, k = j + 1 := ⟨k - 1, by omega⟩
  rw [machineRun_active _ _ ha hn0] at h ⊢
  obtain ⟨hact, hadd⟩ := machineRunLoop_add trace n k {} ha c h
  rw [machineRun_active _ _ ha (by omega), hadd, machineRunLoop_total,
    machineRun_active _ _ hact (by omega)]

end Split

/-- Machines advanced by the same number of attempts agree on everything but a manual halt, and the
same records were delivered. A run may be cut where it reaches its limit. -/
theorem execution_schedule_independent (m : Machine) :
    (∀ as bs : List Advance, attemptsAll m as = attemptsAll m bs →
      recordsAll m as = recordsAll m bs ∧
      (applyAll m as).cpu.registers = (applyAll m bs).cpu.registers ∧
      (applyAll m as).cpu.programCounter = (applyAll m bs).cpu.programCounter ∧
      (applyAll m as).cpu.instructionCount = (applyAll m bs).cpu.instructionCount ∧
      (applyAll m as).memory = (applyAll m bs).memory ∧
      (applyAll m as).exited = (applyAll m bs).exited ∧
      (applyAll m as).exitCode = (applyAll m bs).exitCode) ∧
    (∀ (σ : Type) (trace : Option (CpuStepRecord → σ → σ)) (c : σ) (n k : ℕ), 1 ≤ n → 1 ≤ k →
      (machineRun m n none trace c).1.reason = .limit →
      let first := machineRun m n none trace c
      let second := machineRun first.2.1 k none trace first.2.2
      machineRun m (n + k) none trace c =
        ({ reason := second.1.reason
           attempts := first.1.attempts + second.1.attempts
           retired := first.1.retired + second.1.retired
           last := second.1.last }, second.2)) := by
  refine ⟨fun as bs h => ?_, fun σ trace c n k hn hk h => machineRun_add trace hn hk c h⟩
  obtain ⟨hr, hm⟩ := schedule_determined h
  exact ⟨hr, congrArg (fun m => m.cpu.registers) hm, congrArg (fun m => m.cpu.programCounter) hm,
    congrArg (fun m => m.cpu.instructionCount) hm, congrArg (fun m => m.memory) hm,
    congrArg (fun m => m.exited) hm, congrArg (fun m => m.exitCode) hm⟩

def jumpToSelf : Machine where
  memory := ⟨some [0x6F, 0, 0, 0], 4, by simp⟩
  loaded := true

theorem execution_schedule_independent_jumpToSelf :
    recordsAll jumpToSelf [.step, .stop, .step] =
        recordsAll jumpToSelf [.run 2 (none : Option (Unit → Bool × Unit)) none ()] ∧
      (machineRun jumpToSelf (1 + 2) (none : Option (Unit → Bool × Unit)) none ()).2.1 =
        (machineRun (machineRun jumpToSelf 1 (none : Option (Unit → Bool × Unit)) none ()).2.1 2
          (none : Option (Unit → Bool × Unit)) none ()).2.1 :=
  ⟨((execution_schedule_independent jumpToSelf).1 _ _ (by decide)).1,
    congrArg (fun r => r.2.1) ((execution_schedule_independent jumpToSelf).2 Unit none () 1 2 (by decide)
      (by decide) (by decide))⟩

end Riscv32
