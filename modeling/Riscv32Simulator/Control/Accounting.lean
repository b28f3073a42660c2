import Riscv32Simulator.Control.Schedule
import Riscv32Simulator.Library.Iterated

/-! What `machine_run` counts, which callbacks it makes, and where it ends. -/

namespace Riscv32
open Iterated

/-! ## Runs of attempts -/

/-- At most `limit` attempts of a machine in a row: their records, why they ended, what they left. -/
inductive RunsTo : ℕ → Machine → List CpuStepRecord → MachineStop → Machine → Prop
  | limit (m : Machine) : RunsTo 0 m [] .limit m
  | stopped (n : ℕ) (m : Machine) : RunsTo (n + 1) m [] .stopped (machineStop m)
  | ended (n : ℕ) (m : Machine) (ha : active m) (hr : (machineStep m).1.reason ≠ .ready) :
      RunsTo (n + 1) m [(machineStep m).1.last] (machineStep m).1.reason (machineStep m).2
  | ready {n : ℕ} {m final : Machine} {rs : List CpuStepRecord} {reason : MachineStop}
      (hr : (machineStep m).1.reason = .ready) (h : RunsTo n (machineStep m).2 rs reason final) :
      RunsTo (n + 1) m ((machineStep m).1.last :: rs) reason final

def Cpu.place (cpu : Cpu) : BitVec 32 × BitVec 64 := (cpu.programCounter, cpu.instructionCount)

def Chained : BitVec 32 × BitVec 64 → List CpuStepRecord → BitVec 32 × BitVec 64 → Prop
  | start, [], final => final = start
  | start, r :: rs, final =>
    (r.pcBefore, r.countBefore) = start ∧ Chained (r.pcAfter, r.countAfter) rs final

def retiredOf (rs : List CpuStepRecord) : ℕ := rs.countP (·.result = .ok)

theorem retiredOf_cons (r : CpuStepRecord) (rs : List CpuStepRecord) :
    retiredOf (r :: rs) = retiredOf [r] + retiredOf rs := by
  rw [← List.singleton_append, retiredOf, List.countP_append]
  rfl

section Step

variable {m : Machine}

theorem machineStep_cpu (h : active m) : (machineStep m).2.cpu = (machineAttempt m).cpu := by
  rw [machineStep_eq h]
  split_ifs <;> rfl

theorem machineStep_ready_iff (h : active m) :
    (machineStep m).1.reason = .ready ↔ (machineStep m).1.last.result = .ok := by
  rw [machineStep_eq h]
  split_ifs with hok hexit
  · exact iff_of_true rfl hok
  · exact iff_of_false (by simp [runOf]) hok
  · exact iff_of_false (by simp [runOf]) hok

theorem machineStep_reason (h : active m) : (machineStep m).1.reason = .ready ∨
    (machineStep m).1.reason = .exited ∨ (machineStep m).1.reason = .trap := by
  rw [machineStep_eq h]
  split_ifs
  · exact .inl rfl
  · exact .inr (.inl rfl)
  · exact .inr (.inr rfl)

theorem machineStep_retired (h : active m) :
    (machineStep m).1.retired = retiredOf [(machineStep m).1.last] := by
  have hresult : (machineAttempt m).record.result = (machineAttempt m).result := rfl
  rw [machineStep_eq h]
  split_ifs with hok <;> simp [retiredOf, runOf, hresult, hok]

theorem machineStep_count (h : active m) : (machineStep m).2.cpu.instructionCount =
    m.cpu.instructionCount + BitVec.ofNat 64 (machineStep m).1.retired := by
  rw [machineStep_cpu h]
  rcases machineStep_cases m with ⟨ha, -⟩ | ⟨-, hok, hs⟩ | ⟨-, hexit, hs⟩ | ⟨-, hne, -, hs⟩
  · exact absurd h ha
  · obtain ⟨-, i, -, hr⟩ := cpuStepRecorded_retired hok
    rw [hs, machineAttempt, hr.cpuAfter]
    exact congrArg (· + 1) (Cpu.writeback_instructionCount ..)
  · have hne : (machineAttempt m).result ≠ .ok := by
      rw [hexit.1]
      simp
    rw [hs, (machineAttempt_not_ok hne).1]
    exact (BitVec.add_zero _).symm
  · rw [hs, (machineAttempt_not_ok hne).1]
    exact (BitVec.add_zero _).symm

theorem machineStep_chained (h : active m) {rs : List CpuStepRecord} {final : BitVec 32 × BitVec 64}
    (hc : Chained (machineStep m).2.cpu.place rs final) :
    Chained m.cpu.place ((machineStep m).1.last :: rs) final := by
  obtain ⟨hpc, hcount⟩ := cpuStepRecorded_before { m.cpu with halted := false } m.memory
  rw [machineStep_cpu h] at hc
  rw [(machineStep_attempt h).2]
  exact ⟨Prod.ext hpc hcount, hc⟩

end Step

/-! ## What holds of a run of attempts -/

section RunsTo

variable {n : ℕ} {m final : Machine} {rs : List CpuStepRecord} {reason : MachineStop}

theorem RunsTo.length_le (h : RunsTo n m rs reason final) : rs.length ≤ n := by
  induction h with
  | limit => exact le_rfl
  | stopped n => exact Nat.zero_le _
  | ended n => exact Nat.succ_le_succ (Nat.zero_le _)
  | ready _ _ ih => exact Nat.succ_le_succ ih

theorem RunsTo.chained (h : RunsTo n m rs reason final) : Chained m.cpu.place rs final.cpu.place := by
  induction h with
  | limit => rfl
  | stopped => rfl
  | ended n m ha => exact machineStep_chained ha rfl
  | ready hr _ ih => exact machineStep_chained (machineStep_active_of_ready hr).1 ih

theorem RunsTo.count (h : RunsTo n m rs reason final) : final.cpu.instructionCount =
    m.cpu.instructionCount + BitVec.ofNat 64 (retiredOf rs) := by
  induction h with
  | limit => exact (BitVec.add_zero _).symm
  | stopped => exact (BitVec.add_zero _).symm
  | ended n m ha => rw [machineStep_count ha, machineStep_retired ha]
  | @ready n m final rs reason hr _ ih =>
    have ha := (machineStep_active_of_ready hr).1
    rw [ih, machineStep_count ha, machineStep_retired ha, retiredOf_cons _ rs, BitVec.ofNat_add,
      BitVec.add_assoc]

theorem RunsTo.ends (h : RunsTo n m rs reason final) :
    (reason = .limit ∧ rs.length = n ∧ retiredOf rs = rs.length) ∨
    (reason = .stopped ∧ rs.length < n ∧ retiredOf rs = rs.length ∧
      final = machineStop (after machineStep rs.length m)) ∨
    ((reason = .trap ∨ reason = .exited) ∧ retiredOf rs + 1 = rs.length) := by
  induction h with
  | limit => exact .inl ⟨rfl, rfl, rfl⟩
  | stopped n => exact .inr (.inl ⟨rfl, Nat.succ_pos n, rfl, rfl⟩)
  | ended n m ha hr =>
    refine .inr (.inr ⟨((machineStep_reason ha).resolve_left hr).symm, ?_⟩)
    have hne : ¬ (machineStep m).1.last.result = .ok := mt (machineStep_ready_iff ha).mpr hr
    simp [retiredOf, hne]
  | @ready n m final rs reason hr _ ih =>
    have hok := (machineStep_ready_iff (machineStep_active_of_ready hr).1).mp hr
    have hadd : retiredOf ((machineStep m).1.last :: rs) = retiredOf rs + 1 :=
      List.countP_cons_of_pos (decide_eq_true hok)
    rw [hadd, List.length_cons]
    rcases ih with ⟨h1, h2, h3⟩ | ⟨h1, h2, h3, h4⟩ | ⟨h1, h2⟩
    · exact .inl ⟨h1, by omega, by omega⟩
    · exact .inr (.inl ⟨h1, by omega, by omega, h4.trans (by rw [after_succ])⟩)
    · exact .inr (.inr ⟨h1, by omega⟩)

theorem RunsTo.dropLast (h : RunsTo n m rs reason final) : ∀ r ∈ rs.dropLast, r.result = .ok := by
  induction h with
  | limit => simp
  | stopped => simp
  | ended => simp
  | @ready n m final rs reason hr _ ih =>
    have hok := (machineStep_ready_iff (machineStep_active_of_ready hr).1).mp hr
    cases rs with
    | nil => simp
    | cons s ss =>
      rw [List.dropLast_cons_cons]
      intro r hmem
      rcases List.mem_cons.mp hmem with rfl | hmem
      · exact hok
      · exact ih r hmem

end RunsTo

/-! ## Callbacks -/

inductive CallbackEvent
  | asked (stop : Bool)
  | traced (record : CpuStepRecord)
deriving DecidableEq

section Callbacks

variable {σ : Type} (shouldStop : Option (σ → Bool × σ)) (trace : Option (CpuStepRecord → σ → σ))

def loggedAsk : σ × List CallbackEvent → Bool × (σ × List CallbackEvent) := fun c =>
  ((askStop shouldStop c.1).1, (askStop shouldStop c.1).2, c.2 ++ [.asked (askStop shouldStop c.1).1])

def loggedTrace : CpuStepRecord → σ × List CallbackEvent → σ × List CallbackEvent := fun record c =>
  (trace.elim c.1 fun trace => trace record c.1, c.2 ++ [.traced record])

def loggedRun (m : Machine) (limit : ℕ) (context : σ) :
    MachineRun × Machine × (σ × List CallbackEvent) :=
  machineRun m limit (some (loggedAsk shouldStop)) (some (loggedTrace trace)) (context, [])

/-- The calls of a run: a question before each attempt and a record after it, and a last question
when that one is answered with a stop. -/
def callsOf (rs : List CpuStepRecord) (reason : MachineStop) : List CallbackEvent :=
  rs.flatMap (fun r => [.asked false, .traced r]) ++ if reason = .stopped then [.asked true] else []

theorem callsOf_cons (r : CpuStepRecord) (rs : List CpuStepRecord) (reason : MachineStop) :
    callsOf (r :: rs) reason = .asked false :: .traced r :: callsOf rs reason := rfl

def MachineRun.through (total : MachineRun) (rs : List CpuStepRecord) (reason : MachineStop) :
    MachineRun where
  reason := reason
  attempts := total.attempts + rs.length
  retired := total.retired + retiredOf rs
  last := rs.getLastD total.last

theorem add_through {m : Machine} (ha : active m) (total : MachineRun) (rs : List CpuStepRecord)
    (reason : MachineStop) : (total.add (machineStep m).1).through rs reason =
      total.through ((machineStep m).1.last :: rs) reason := by
  rw [MachineRun.through, MachineRun.through, MachineRun.add, (machineStep_attempt ha).1,
    machineStep_retired ha, retiredOf_cons _ rs, List.length_cons, List.getLastD_cons,
    Nat.add_assoc, Nat.add_assoc, Nat.add_comm 1]

/-- The loop makes the attempts of a run, with its calls, and writing them down changes nothing. -/
theorem machineRunLoop_runsTo (n : ℕ) (total : MachineRun) {m : Machine} (ha : active m) (c : σ)
    (log : List CallbackEvent) : ∃ rs reason final c', RunsTo n m rs reason final ∧
      machineRunLoop shouldStop trace n total m c = (total.through rs reason, final, c') ∧
      machineRunLoop (some (loggedAsk shouldStop)) (some (loggedTrace trace)) n total m (c, log) =
        (total.through rs reason, final, c', log ++ callsOf rs reason) := by
  induction n generalizing total m c log with
  | zero => exact ⟨[], .limit, m, c, .limit m, rfl, by simp [callsOf, machineRunLoop]; rfl⟩
  | succ n ih =>
    have hask : askStop (some (loggedAsk shouldStop)) (c, log) = ((askStop shouldStop c).1,
        (askStop shouldStop c).2, log ++ [.asked (askStop shouldStop c).1]) := rfl
    -- both runs get the same answer, so they go the same way
    rw [machineRunLoop_succ, machineRunLoop_succ, hask]
    generalize askStop shouldStop c = asked
    obtain ⟨stop, c₁⟩ := asked
    cases stop with
    | true => exact ⟨[], .stopped, machineStop m, c₁, .stopped n m, rfl, rfl⟩
    | false =>
      have htrace : traceAttempt (some (loggedTrace trace)) (machineStep m).1
          (c₁, log ++ [.asked false]) = (traceAttempt trace (machineStep m).1 c₁,
            log ++ [.asked false] ++ [.traced (machineStep m).1.last]) := by
        cases trace <;> simp [traceAttempt, loggedTrace, (machineStep_attempt ha).1]
      dsimp only
      rw [htrace]
      generalize traceAttempt trace (machineStep m).1 c₁ = c₂
      rw [if_neg Bool.false_ne_true, if_neg Bool.false_ne_true]
      -- the last attempt of a run is traced before the run ends
      by_cases hr : (machineStep m).1.reason ≠ .ready
      · rw [if_pos hr, if_pos hr]
        refine ⟨_, _, _, c₂, .ended n m ha hr, ?_, ?_⟩
        · rw [← add_through ha]
          rfl
        · have hne : (machineStep m).1.reason ≠ .stopped := by
            rcases machineStep_reason ha with h | h | h <;> rw [h] <;> simp
          have hcalls : callsOf [] (machineStep m).1.reason = [] := if_neg hne
          rw [← add_through ha, callsOf_cons, hcalls, List.append_assoc]
          rfl
      · rw [if_neg hr, if_neg hr]
        have hready := not_not.mp hr
        obtain ⟨rs, reason, final, c', hruns, hplain, hlogged⟩ :=
          ih (total.add (machineStep m).1) (machineStep_active_of_ready hready).2 c₂
            (log ++ [.asked false] ++ [.traced (machineStep m).1.last])
        rw [add_through ha] at hplain hlogged
        refine ⟨_, reason, final, c', .ready hready hruns, hplain, ?_⟩
        rw [hlogged, callsOf_cons, List.append_assoc, List.append_assoc]
        rfl

structure Ledger (m : Machine) (limit : ℕ) (rs : List CpuStepRecord) (run : MachineRun)
    (final : Machine) : Prop where
  length : rs.length = run.attempts
  attempts : run.attempts ≤ limit
  chained : Chained m.cpu.place rs final.cpu.place
  last : run.last = rs.getLastD {}
  retiredBefore : ∀ r ∈ rs.dropLast, r.result = .ok
  reason : run.reason = .limit ∨ run.reason = .stopped ∨ run.reason = .trap ∨ run.reason = .exited
  limit : run.reason = .limit ↔ run.attempts = limit ∧ ∀ r ∈ rs, r.result = .ok
  uninterrupted : run.reason = .limit ∨ run.reason = .stopped → run.retired = run.attempts
  interrupted : run.reason = .trap ∨ run.reason = .exited → run.retired + 1 = run.attempts
  count : final.cpu.instructionCount = m.cpu.instructionCount + BitVec.ofNat 64 run.retired
  stopped : run.reason = .stopped →
    final = machineStop (after machineStep run.attempts m)

theorem RunsTo.ledger {n : ℕ} {m final : Machine} {rs : List CpuStepRecord} {reason : MachineStop}
    (h : RunsTo n m rs reason final) :
    Ledger m n rs (MachineRun.through {} rs reason) final := by
  have hattempts : (MachineRun.through {} rs reason).attempts = rs.length := Nat.zero_add _
  have hretired : (MachineRun.through {} rs reason).retired = retiredOf rs := Nat.zero_add _
  have hall : retiredOf rs = rs.length ↔ ∀ r ∈ rs, r.result = .ok := by
    rw [retiredOf, List.countP_eq_length]
    simp only [decide_eq_true_eq]
  -- every item below is read off the way in which the run ended
  refine ⟨hattempts.symm, hattempts ▸ h.length_le, h.chained, rfl, h.dropLast, ?_, ?_, ?_, ?_,
    hretired ▸ h.count, ?_⟩ <;> rw [show (MachineRun.through {} rs reason).reason = reason from rfl]
  · rcases h.ends with ⟨h1, -⟩ | ⟨h1, -⟩ | ⟨h1, -⟩
    · exact .inl h1
    · exact .inr (.inl h1)
    · exact .inr (.inr h1)
  · rw [hattempts, ← hall]
    rcases h.ends with ⟨h1, h2, h3⟩ | ⟨h1, h2, -⟩ | ⟨h1, h2⟩
    · exact iff_of_true h1 ⟨h2, h3⟩
    · exact iff_of_false (by simp [h1]) fun hc => absurd hc.1 h2.ne
    · exact iff_of_false (by obtain h1 | h1 := h1 <;> simp [h1]) fun hc => by omega
  · rw [hattempts, hretired]
    intro hc
    rcases h.ends with ⟨-, -, h3⟩ | ⟨-, -, h3, -⟩ | ⟨h1, -⟩
    · exact h3
    · exact h3
    · rcases h1 with rfl | rfl <;> simp at hc
  · rw [hattempts, hretired]
    intro hc
    rcases h.ends with ⟨h1, -⟩ | ⟨h1, -⟩ | ⟨-, h2⟩
    · simp [h1] at hc
    · simp [h1] at hc
    · exact h2
  · rw [hattempts]
    intro hc
    rcases h.ends with ⟨h1, -⟩ | ⟨-, -, -, h4⟩ | ⟨h1, -⟩
    · simp [h1] at hc
    · exact h4
    · simp [hc] at h1

/-- Every run of a machine that can be advanced keeps its accounts, whatever its callbacks answer. -/
theorem run_accounting {m : Machine} (ha : active m) {limit : ℕ} (hl : 1 ≤ limit) (c : σ) :
    ∃ rs run final c', machineRun m limit shouldStop trace c = (run, final, c') ∧
      loggedRun shouldStop trace m limit c = (run, final, c', callsOf rs run.reason) ∧
      Ledger m limit rs run final := by
  have hn : limit ≠ 0 := by omega
  obtain ⟨rs, reason, final, c', hruns, hplain, hlogged⟩ :=
    machineRunLoop_runsTo shouldStop trace limit {} ha c []
  refine ⟨rs, _, final, c', ?_, ?_, hruns.ledger⟩
  · rw [machineRun_active _ _ ha hn, hplain]
  · rw [loggedRun, machineRun_active _ _ ha hn, hlogged, List.nil_append]
    rfl

end Callbacks

def nopMachine : Machine where
  memory := (Memory.zeroed 8).splice 0 [0x13#8, 0#8, 0#8, 0#8]
  loaded := true

theorem run_accounting_nop : ∃ rs run final c',
    machineRun nopMachine 2 (some fun asked : Bool => (asked, true)) none false =
      (run, final, c') ∧
    loggedRun (some fun asked : Bool => (asked, true)) none nopMachine 2 false =
      (run, final, c', callsOf rs run.reason) ∧
    Ledger nopMachine 2 rs run final :=
  run_accounting _ _ ⟨rfl, rfl⟩ (by decide) _

end Riscv32
