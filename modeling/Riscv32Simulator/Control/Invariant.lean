import Riscv32Simulator.Control.Commands
import Riscv32Simulator.Control.Records

/-! What holds of a machine after any calls, starting from `machine_init`. -/

namespace Riscv32
open Rv32i (Instr Word)

structure LoadedInvariant (m : Machine) : Prop where
  ready : memoryReady m.memory = true
  initialReady : memoryReady m.initial.memory = true
  size : m.memory.size = m.initial.memory.size
  zero : m.cpu.registers 0 = 0
  aligned : m.cpu.programCounter.toNat % 4 = 0
  entryAligned : m.initial.entry.toNat % 4 = 0
  entryInside : m.initial.loadAddress.toNat ≤ m.initial.entry.toNat ∧
    m.initial.entry.toNat + 4 ≤ m.initial.loadAddress.toNat + m.initial.imageSize
  imageInside : m.initial.loadAddress.toNat + m.initial.imageSize ≤ m.initial.memory.size

/-- An exited machine still stands at the ECALL that asked for the exit service. -/
structure ExitedInvariant (m : Machine) : Prop where
  loaded : m.loaded = true
  word : cpuFetchInstruction m.cpu m.memory = some 0x00000073#32
  service : m.cpu.registers 17 = 93#32
  code : m.exitCode = m.cpu.registers 10

structure MachineInvariant (m : Machine) : Prop where
  loaded : m.loaded = true → LoadedInvariant m
  exited : m.exited = true → ExitedInvariant m
  running : m.exited = false → m.exitCode = 0

theorem machineInvariant_init : MachineInvariant machineInit := ⟨nofun, nofun, fun _ => rfl⟩

/-! ## Loading -/

theorem loadedMachine_invariant {p : Program} (h : machineLoadRejects p = false) :
    MachineInvariant (loadedMachine p) := by
  have hr := memoryReady_of_accepted h
  have hsize := (memorySizeValid_iff _).mp (memoryReady_size hr)
  simp only [machineLoadRejects, Bool.or_eq_false_iff, decide_eq_false_iff_not, bne_eq_false_iff_eq]
    at h
  have hword : memoryWordSize = 4 := rfl
  obtain ⟨⟨⟨⟨⟨⟨-, hmin⟩, hload⟩, hfit⟩, haligned⟩, hle⟩, hentry⟩ := h
  have hle' : p.loadAddress ≤ p.entry := BitVec.not_lt.mp hle
  rw [BitVec.toNat_sub_of_le hle'] at hentry
  have hle'' : p.loadAddress.toNat ≤ p.entry.toNat := hle'
  refine ⟨fun _ => ⟨hr, hr, rfl, rfl, haligned, haligned, ⟨hle'', ?_⟩, ?_⟩, ?_, fun _ => rfl⟩
  · change p.entry.toNat + 4 ≤ p.loadAddress.toNat + p.imageSize
    omega
  · change p.loadAddress.toNat + p.imageSize ≤ p.memory.size
    omega
  · intro hexited
    cases hexited

theorem MachineInvariant.load {m : Machine} (h : MachineInvariant m) (p : Program)
    (calloc₁ calloc₂ : Bool) : MachineInvariant (machineLoad m p calloc₁ calloc₂).2 := by
  rw [machineLoad_eq]
  split_ifs with hc
  · exact loadedMachine_invariant hc.1
  · exact h

theorem MachineInvariant.reset {m : Machine} (h : MachineInvariant m) :
    MachineInvariant (machineReset m).2 := by
  unfold machineReset
  cases hl : m.loaded with
  | false => exact h
  | true =>
    have hi := h.loaded hl
    rw [memoryCopy_eq, hi.initialReady, hi.ready, hi.size, beq_self_eq_true]
    exact ⟨fun _ => ⟨hi.initialReady, hi.initialReady, rfl, rfl, hi.entryAligned, hi.entryAligned,
      hi.entryInside, hi.imageInside⟩, nofun, fun _ => rfl⟩

/-! ## Advancing -/

theorem cpuStepRecorded_zero (cpu : Cpu) (memory : Memory) :
    (cpuStepRecorded cpu memory).cpu.registers 0 = cpu.registers 0 := by
  by_contra hne
  have hr := cpuStepRecorded_reversible cpu memory
  exact (redo_register (by rwa [hr.redo])).2.1 rfl

theorem toNat_add_four_mod {a : Word} (h : a.toNat % 4 = 0) : (a + 4).toNat % 4 = 0 := by
  rw [BitVec.toNat_add, show (4 : Word).toNat = 4 from rfl]
  omega

theorem cpuStepRecorded_aligned {cpu : Cpu} (h : cpu.programCounter.toNat % 4 = 0)
    (memory : Memory) : (cpuStepRecorded cpu memory).cpu.programCounter.toNat % 4 = 0 := by
  by_cases hok : (cpuStepRecorded cpu memory).result = .ok
  · obtain ⟨hf, i, hi, hr⟩ := cpuStepRecorded_retired hok
    obtain ⟨-, -, -, htarget, -⟩ := retires_of_firstTrap hf hi
    rw [hr.cpuAfter]
    change ((targetOf cpu memory i).getD (cpu.programCounter + 4)).toNat % 4 = 0
    cases ht : targetOf cpu memory i with
    | none => exact toNat_add_four_mod h
    | some t => exact htarget t ht
  · rwa [(cpuStepRecorded_not_ok hok).1]

theorem decode_ecall {w : Word} (h : Rv32i.decode w = some .ecall) : w = 0x00000073#32 := by
  rw [← Rv32i.encode_of_decode h]
  rfl

theorem firstTrap_ecall {cpu : Cpu} {memory : Memory} {c : TrapCheck}
    (h : firstTrap cpu memory = some c) (hc : c.result = .ecall) :
    misaligned cpu.programCounter 4 = false ∧ inRam memory cpu.programCounter 4 = true ∧
      instrAt cpu memory = some .ecall := by
  have hmem := List.mem_of_find?_eq_some h
  have hfails := List.find?_some h
  cases hpc : misaligned cpu.programCounter 4 with
  | true =>
    simp only [firstTrap, trapChecks, List.find?, hpc, Option.some.injEq] at h
    obtain rfl := h
    cases hc
  | false =>
    cases hram : inRam memory cpu.programCounter 4 with
    | false =>
      simp only [firstTrap, trapChecks, List.find?, hpc, hram, Bool.not_false,
        Option.some.injEq] at h
      obtain rfl := h
      cases hc
    | true =>
      refine ⟨rfl, rfl, ?_⟩
      -- of the ten checks only one ends in this result
      simp only [trapChecks, List.mem_cons, List.not_mem_nil, or_false] at hmem
      rcases hmem with rfl | rfl | rfl | rfl | rfl | rfl | rfl | rfl | rfl | rfl
      all_goals first | exact CpuStepResult.noConfusion hc | exact beq_iff_eq.mp hfails

theorem cpuFetchInstruction_of_ecall {cpu : Cpu} {memory : Memory}
    (h : (cpuStepRecorded cpu memory).result = .ecall) :
    cpuFetchInstruction cpu memory = some 0x00000073#32 := by
  rcases cpuStepRecorded_cases cpu memory with hh | ⟨c, hf, ht⟩ | ⟨-, i, -, hr⟩
  · rw [cpuStepRecorded_halted hh] at h
    nomatch h
  · obtain ⟨hpc, hram, hi⟩ := firstTrap_ecall hf (ht.result.symm.trans h)
    rw [cpuFetchInstruction_eq hpc hram, decode_ecall hi]
  · nomatch hr.result.symm.trans h

theorem MachineInvariant.retire {m : Machine} (h : MachineInvariant m) (ha : active m) :
    MachineInvariant (retiredMachine m) := by
  have hi := h.loaded ha.1
  have hstart : ({ m.cpu with halted := false } : Cpu).programCounter.toNat % 4 = 0 := hi.aligned
  have hpc : (retiredMachine m).cpu.programCounter.toNat % 4 = 0 :=
    cpuStepRecorded_aligned hstart m.memory
  refine ⟨fun _ => ?_, fun he => ?_, h.running⟩
  · exact ⟨(cpuStepRecorded_ready _ _).trans hi.ready, hi.initialReady,
      (cpuStepRecorded_size _ _).trans hi.size, (cpuStepRecorded_zero _ _).trans hi.zero,
      hpc, hi.entryAligned, hi.entryInside, hi.imageInside⟩
  · nomatch ha.2.symm.trans he

theorem MachineInvariant.stop {m : Machine} (h : MachineInvariant m) :
    MachineInvariant (machineStop m) := by
  refine ⟨fun hl => ?_, fun he => ?_, h.running⟩
  · have hi := h.loaded hl
    exact ⟨hi.ready, hi.initialReady, hi.size, hi.zero, hi.aligned, hi.entryAligned,
      hi.entryInside, hi.imageInside⟩
  · have hi := h.exited he
    exact ⟨hi.loaded, hi.word, hi.service, hi.code⟩

theorem MachineInvariant.resume {m : Machine} (h : MachineInvariant m) :
    MachineInvariant (resumedMachine m) := by
  refine ⟨fun hl => ?_, fun he => ?_, h.running⟩
  · have hi := h.loaded hl
    exact ⟨hi.ready, hi.initialReady, hi.size, hi.zero, hi.aligned, hi.entryAligned,
      hi.entryInside, hi.imageInside⟩
  · have hi := h.exited he
    exact ⟨hi.loaded, hi.word, hi.service, hi.code⟩

theorem MachineInvariant.exit {m : Machine} (h : MachineInvariant m) (ha : active m)
    (he : isExit m) : MachineInvariant (exitedMachine m) := by
  refine ⟨fun hl => ?_, fun _ => ?_, nofun⟩
  · have hi := h.loaded hl
    exact ⟨hi.ready, hi.initialReady, hi.size, hi.zero, hi.aligned, hi.entryAligned,
      hi.entryInside, hi.imageInside⟩
  · exact ⟨ha.1, cpuFetchInstruction_of_ecall he.1, he.2, rfl⟩

theorem MachineInvariant.step {m : Machine} (h : MachineInvariant m) :
    MachineInvariant (machineStep m).2 := by
  rcases machineStep_cases m with ⟨-, hs⟩ | ⟨ha, -, hs⟩ | ⟨ha, he, hs⟩ | ⟨-, -, -, hs⟩ <;> rw [hs]
  · exact h
  · exact h.retire ha
  · exact h.exit ha he
  · exact h.resume

/-! ## Calls -/

theorem MachineInvariant.apply {m : Machine} (h : MachineInvariant m) (c : Command) :
    MachineInvariant (c.apply m) := by
  cases c with
  | load p calloc₁ calloc₂ => exact h.load p calloc₁ calloc₂
  | advance a =>
    have hstep : ∀ m, MachineInvariant m → MachineInvariant (machineStep m).2 := fun _ hm => hm.step
    have hstop : ∀ m, MachineInvariant m → MachineInvariant (machineStop m) := fun _ hm => hm.stop
    exact Advance.preserves hstep hstop a h
  | reset => exact h.reset
  | destroy => exact machineInvariant_init

theorem MachineInvariant.applyAll {m : Machine} (h : MachineInvariant m) (cs : List Command) :
    MachineInvariant (Command.applyAll m cs) := by
  induction cs generalizing m with
  | nil => exact h
  | cons c cs ih => exact ih (h.apply c)

/-! ## What a reachable machine reports -/

/-- No call but a load, a reset or a destroy gets an exited machine going again. -/
structure StaysExited (m : Machine) : Prop where
  step : machineStep m = ({ reason := .exited }, m)
  run : ∀ {σ : Type} (limit : ℕ) (shouldStop : Option (σ → Bool × σ))
    (trace : Option (CpuStepRecord → σ → σ)) (context : σ), limit ≠ 0 →
      machineRun m limit shouldStop trace context = ({ reason := .exited }, m, context)

/-- The reports of a step that a loaded machine never makes. -/
structure StepsCleanly (run : MachineRun) : Prop where
  notHalted : run.last.result ≠ .halted
  validArgument : run.last.result ≠ .invalidArgument
  alignedPc : run.last.result = .misalignedPc → run.last.fetched = true
  alignedTrap : run.last.trap.raised = true → run.last.trap.cause = .instructionMisaligned →
    run.last.fetched = true
  raised : run.reason = .trap → run.last.trap.raised = true

theorem staysExited {m : Machine} (hl : m.loaded = true) (he : m.exited = true) :
    StaysExited m := by
  have hn : ¬ active m := fun ha => nomatch ha.2.symm.trans he
  constructor
  · rw [machineStep_inactive hn, hl]
    rfl
  · intro σ limit shouldStop trace context hlimit
    rw [machineRun_inactive _ _ (fun h => hn h.1), if_neg hlimit, hl]
    rfl

theorem firstTrap_fetched {cpu : Cpu} {memory : Memory} {c : TrapCheck}
    (h : firstTrap cpu memory = some c) (hpc : misaligned cpu.programCounter 4 = false)
    (hc : c.result = .misalignedPc ∨ c.cause = .instructionMisaligned) : c.fetched = true := by
  have hmem := List.mem_of_find?_eq_some h
  have hfails := List.find?_some h
  simp only [trapChecks, List.mem_cons, List.not_mem_nil, or_false] at hmem
  rcases hmem with rfl | hmem
  · cases hpc.symm.trans hfails
  · have hall : ∀ x ∈ (trapChecks cpu memory).drop 2, x.fetched = true := by
      simp [trapChecks]
    rcases hmem with rfl | hmem
    · simp at hc
    · refine hall c ?_
      simpa [trapChecks] using hmem

theorem machineAttempt_stepsCleanly {m : Machine} (hpc : misaligned m.cpu.programCounter 4 = false)
    {reason : MachineStop} (hreason : reason = .trap → (machineAttempt m).result ≠ .ok) (n : ℕ) :
    StepsCleanly (runOf m reason n) := by
  rcases cpuStepRecorded_cases { m.cpu with halted := false } m.memory with
    hh | ⟨c, hf, ht⟩ | ⟨-, i, -, hr⟩
  · nomatch hh
  · have hlast : (runOf m reason n).last.result = c.result := ht.result
    have htrap : (runOf m reason n).last.trap = _ := ht.trap
    have hfetched : (runOf m reason n).last.fetched = c.fetched := ht.fetched
    obtain ⟨-, h1, h2⟩ := firstTrap_result hf
    refine ⟨by rwa [hlast], by rwa [hlast], fun h => ?_, fun _ h => ?_, fun _ => by rw [htrap]⟩
    · rw [hfetched]
      exact firstTrap_fetched hf hpc (.inl (hlast.symm.trans h))
    · rw [htrap] at h
      rw [hfetched]
      exact firstTrap_fetched hf hpc (.inr h)
  · have hlast : (runOf m reason n).last.result = .ok := hr.result
    have htrap : (runOf m reason n).last.trap = {} := hr.trap
    refine ⟨by rw [hlast]; nofun, by rw [hlast]; nofun, fun h => ?_, fun h => ?_, fun h => ?_⟩
    · nomatch hlast.symm.trans h
    · rw [htrap] at h
      nomatch h
    · exact absurd hr.result (hreason h)

theorem machineStep_stepsCleanly {m : Machine} (h : MachineInvariant m) :
    StepsCleanly (machineStep m).1 := by
  have hpc : m.loaded = true → misaligned m.cpu.programCounter 4 = false := fun hl =>
    misaligned_eq_false.mpr (h.loaded hl).aligned
  rcases machineStep_cases m with ⟨-, hs⟩ | ⟨ha, -, hs⟩ | ⟨ha, -, hs⟩ | ⟨ha, hne, -, hs⟩ <;> rw [hs]
  · refine ⟨nofun, nofun, nofun, nofun, ?_⟩
    cases m.loaded <;> nofun
  · exact machineAttempt_stepsCleanly (hpc ha.1) (by nofun) 1
  · exact machineAttempt_stepsCleanly (hpc ha.1) (by nofun) 0
  · exact machineAttempt_stepsCleanly (hpc ha.1) (fun _ => hne) 0

theorem writeWidth_isSome {memory : Memory} {address : Word} {width : ℕ}
    (h : (readWidth memory address width).isSome) (value : Word) :
    (writeWidth memory address width value).isSome := by
  unfold readWidth at h
  unfold writeWidth
  split_ifs at h ⊢
  · rw [Option.isSome_map, memoryReadU8] at h
    unfold memoryWriteU8
    split_ifs at h ⊢
    · rfl
    · exact h
  · rw [Option.isSome_map, memoryReadU16] at h
    unfold memoryWriteU16
    split_ifs at h ⊢
    · rfl
    · exact h
  · unfold memoryReadU32 at h
    unfold memoryWriteU32
    split_ifs at h ⊢
    · rfl
    · exact h

/-- The invariant of every reachable machine, and what it keeps a step from reporting. -/
theorem reachable_machine_invariant (cs : List Command) :
    let m := Command.applyAll machineInit cs
    MachineInvariant m ∧ (m.exited = true → StaysExited m) ∧
      (m.loaded = true → StepsCleanly (machineStep m).1) ∧
      ∀ (address : Word) (width : ℕ) (value : Word),
        (readWidth m.memory address width).isSome →
          (writeWidth m.memory address width value).isSome := by
  intro m
  have h : MachineInvariant m := machineInvariant_init.applyAll cs
  exact ⟨h, fun he => staysExited (h.exited he).loaded he, fun _ => machineStep_stepsCleanly h,
    fun _ _ value hr => writeWidth_isSome hr value⟩

def exitProgram : Program where
  memory := ⟨some [0x93, 0x08, 0xD0, 0x05, 0x73, 0x00, 0x00, 0x00], 8, by simp⟩
  imageSize := 8

/-- A run with no limit is refused before the exit is looked at. -/
theorem exited_run_without_limit :
    let m := Command.applyAll machineInit [.load exitProgram true true, .advance .step, .advance .step]
    m.exited = true ∧
      (machineRun m 0 (none : Option (Unit → Bool × Unit)) none ()).1.reason ≠ .exited := by
  decide

end Riscv32
