import Riscv32Simulator.Control.Commands

/-! `machine_reset` returns to the state right after the load, whatever was done in between. -/

namespace Riscv32

/-- The image of `p` is retained, beside RAM of the same size that any guest store may have hit. -/
structure Retains (p : Program) (m : Machine) : Prop where
  loaded : m.loaded = true
  initial : m.initial = (loadedMachine p).initial
  size : m.memory.size = p.memory.size
  ready : memoryReady m.memory = true

theorem loadedMachine_retains {p : Program} (h : machineLoadRejects p = false) :
    Retains p (loadedMachine p) := ⟨rfl, rfl, rfl, memoryReady_of_accepted h⟩

theorem Retains.step {p : Program} {m : Machine} (h : Retains p m) :
    Retains p (machineStep m).2 := by
  rcases machineStep_cases m with ⟨-, hs⟩ | ⟨-, -, hs⟩ | ⟨-, -, hs⟩ | ⟨-, -, -, hs⟩ <;> rw [hs]
  · exact h
  · exact ⟨h.loaded, h.initial, (cpuStepRecorded_size _ _).trans h.size,
      (cpuStepRecorded_ready _ _).trans h.ready⟩
  · exact ⟨h.loaded, h.initial, h.size, h.ready⟩
  · exact ⟨h.loaded, h.initial, h.size, h.ready⟩

theorem Retains.stop {p : Program} {m : Machine} (h : Retains p m) : Retains p (machineStop m) :=
  ⟨h.loaded, h.initial, h.size, h.ready⟩

theorem Retains.reset {p : Program} (hp : memoryReady p.memory = true) {m : Machine}
    (h : Retains p m) : machineReset m = (true, loadedMachine p) := by
  have hcopy : memoryCopy m.initial.memory m.memory = some p.memory := by
    have hi : m.initial.memory = p.memory := by rw [h.initial]; rfl
    rw [hi, memoryCopy_eq, hp, h.ready, h.size, beq_self_eq_true]
    rfl
  rw [machineReset, h.loaded, hcopy]
  have hentry : m.initial.entry = p.entry := by rw [h.initial]; rfl
  cases m with
  | mk cpu memory initial loaded exited exitCode =>
    obtain rfl : loaded = true := h.loaded
    obtain rfl : initial = (loadedMachine p).initial := h.initial
    rfl

/-- A call that keeps the program: a load only when it fails. -/
def Command.keepsProgram (m : Machine) : Command → Prop
  | .load p calloc₁ calloc₂ => (machineLoad m p calloc₁ calloc₂).1 = false
  | .advance _ => True
  | .reset => True
  | .destroy => False

def keepProgram (m : Machine) : List Command → Prop
  | [] => True
  | c :: cs => c.keepsProgram m ∧ keepProgram (c.apply m) cs

theorem Retains.apply {p : Program} (hp : memoryReady p.memory = true) {m : Machine}
    (h : Retains p m) {c : Command} (hc : c.keepsProgram m) : Retains p (c.apply m) := by
  cases c with
  | load q calloc₁ calloc₂ =>
    rw [Command.apply, machineLoad_false hc]
    exact h
  | advance a =>
    have hstep : ∀ m, Retains p m → Retains p (machineStep m).2 := fun _ hm => hm.step
    have hstop : ∀ m, Retains p m → Retains p (machineStop m) := fun _ hm => hm.stop
    exact Advance.preserves hstep hstop a h
  | reset =>
    rw [Command.apply, h.reset hp]
    exact ⟨rfl, rfl, rfl, hp⟩
  | destroy => exact absurd hc id

theorem Retains.applyAll {p : Program} (hp : memoryReady p.memory = true) {m : Machine}
    (h : Retains p m) {cs : List Command} (hc : keepProgram m cs) :
    Retains p (Command.applyAll m cs) := by
  induction cs generalizing m with
  | nil => exact h
  | cons c cs ih => exact ih (h.apply hp hc.1) hc.2

theorem accepts_initial {p : Program} (h : machineLoadRejects p = false) :
    machineLoadRejects (loadedMachine p).initial = false := h

/-- After any calls that keep the program, reset gives the state the load left, and loading the
retained image gives the same. -/
theorem reset_restores_load {m₀ m₁ : Machine} {p : Program} {calloc₁ calloc₂ : Bool}
    (hload : machineLoad m₀ p calloc₁ calloc₂ = (true, m₁)) (cs : List Command)
    (hcs : keepProgram m₁ cs) :
    machineReset (Command.applyAll m₁ cs) = (true, m₁) ∧
      machineLoad (Command.applyAll m₁ cs) (Command.applyAll m₁ cs).initial true true =
        machineReset (Command.applyAll m₁ cs) ∧
      ∀ (m : Machine) (q : Program) (c₁ c₂ : Bool), (machineLoad m q c₁ c₂).1 = false →
        (machineLoad m q c₁ c₂).2 = m := by
  obtain ⟨haccept, rfl⟩ := machineLoad_true hload
  have hp := memoryReady_of_accepted haccept
  have hretains := (loadedMachine_retains haccept).applyAll hp hcs
  refine ⟨hretains.reset hp, ?_, fun m q c₁ c₂ => machineLoad_false⟩
  rw [hretains.reset hp, hretains.initial, machineLoad_eq,
    if_pos ⟨accepts_initial haccept, rfl, rfl⟩]
  rfl

def zeroWord : Program where
  memory := Memory.zeroed 4
  imageSize := 4

theorem machineLoad_zeroWord :
    machineLoad machineInit zeroWord true true = (true, loadedMachine zeroWord) := by
  rw [machineLoad_eq, if_pos ⟨by decide, rfl, rfl⟩]

theorem reset_restores_zeroWord :
    machineReset (Command.applyAll (loadedMachine zeroWord)
      [.advance .step, .advance .stop, .load {} true true, .reset]) =
        (true, loadedMachine zeroWord) :=
  (reset_restores_load machineLoad_zeroWord
    [.advance .step, .advance .stop, .load {} true true, .reset]
    ⟨trivial, trivial, by rw [Command.keepsProgram, machineLoad_eq, if_neg nofun],
      trivial, trivial⟩).1

end Riscv32
