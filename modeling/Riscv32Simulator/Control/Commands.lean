import Riscv32Simulator.Control.Schedule

/-! Sequences of calls on one machine, and the image they retain: after a load nothing but another
successful load or a destroy changes what `machine_reset` returns to. -/

namespace Riscv32

inductive Command : Type 1
  | load (program : Program) (calloc₁ calloc₂ : Bool)
  | advance (a : Advance)
  | reset
  | destroy

def Command.apply (m : Machine) : Command → Machine
  | .load program calloc₁ calloc₂ => (machineLoad m program calloc₁ calloc₂).2
  | .advance a => a.apply m
  | .reset => (machineReset m).2
  | .destroy => machineDestroy m

def Command.applyAll (m : Machine) (cs : List Command) : Machine := cs.foldl Command.apply m

/-! ## Invariants -/

section Invariants

variable {P : Machine → Prop}

theorem machineRunLoop_preserves {σ : Type} (hstep : ∀ m, P m → P (machineStep m).2)
    (hstop : ∀ m, P m → P (machineStop m)) (shouldStop : Option (σ → Bool × σ))
    (trace : Option (CpuStepRecord → σ → σ)) (n : ℕ) (total : MachineRun) {m : Machine} (h : P m)
    (c : σ) : P (machineRunLoop shouldStop trace n total m c).2.1 := by
  induction n generalizing total m c with
  | zero => exact h
  | succ n ih =>
    rw [machineRunLoop_succ]
    split_ifs
    · exact hstop m h
    · exact hstep m h
    · exact ih _ (hstep m h) _

/-- What a step and a stop preserve, every way to advance preserves. -/
theorem Advance.preserves (hstep : ∀ m, P m → P (machineStep m).2)
    (hstop : ∀ m, P m → P (machineStop m)) (a : Advance) {m : Machine} (h : P m) :
    P (a.apply m) := by
  cases a with
  | step => exact hstep m h
  | stop => exact hstop m h
  | run limit shouldStop trace context =>
    rw [Advance.apply]
    by_cases ha : active m ∧ limit ≠ 0
    · rw [machineRun_active _ _ ha.1 ha.2]
      exact machineRunLoop_preserves hstep hstop shouldStop trace limit {} h context
    · rwa [machineRun_inactive _ _ ha]

end Invariants

/-! ## Loading -/

def loadedMachine (p : Program) : Machine where
  cpu := { programCounter := p.entry }
  memory := p.memory
  initial :=
    { memory := p.memory
      loadAddress := p.loadAddress
      entry := p.entry
      imageSize := p.imageSize
      format := p.format }
  loaded := true

theorem memoryReady_of_accepted {p : Program} (h : machineLoadRejects p = false) :
    memoryReady p.memory = true := by
  simp only [machineLoadRejects, Bool.or_eq_false_iff, Bool.not_eq_false', Option.isNone_eq_false_iff]
    at h
  rw [memoryReady, h.1.1.1.1.1.1.1, h.1.1.1.1.1.1.2]
  rfl

theorem machineLoad_eq (m : Machine) (p : Program) (calloc₁ calloc₂ : Bool) :
    machineLoad m p calloc₁ calloc₂ =
      if machineLoadRejects p = false ∧ calloc₁ = true ∧ calloc₂ = true then
        (true, loadedMachine p) else (false, m) := by
  rw [machineLoad, memoryClone_empty, memoryClone_empty]
  cases hr : machineLoadRejects p with
  | true => rfl
  | false =>
    rw [memoryReady_of_accepted hr]
    cases calloc₁ <;> cases calloc₂ <;> rfl

theorem machineLoad_false {m : Machine} {p : Program} {calloc₁ calloc₂ : Bool}
    (h : (machineLoad m p calloc₁ calloc₂).1 = false) : (machineLoad m p calloc₁ calloc₂).2 = m := by
  rw [machineLoad_eq] at h ⊢
  split_ifs at h ⊢
  rfl

theorem machineLoad_true {m m' : Machine} {p : Program} {calloc₁ calloc₂ : Bool}
    (h : machineLoad m p calloc₁ calloc₂ = (true, m')) :
    machineLoadRejects p = false ∧ m' = loadedMachine p := by
  rw [machineLoad_eq] at h
  split_ifs at h with hc
  · exact ⟨hc.1, (Prod.mk.inj h).2.symm⟩
  · nomatch (Prod.mk.inj h).1

end Riscv32
