import Riscv32Simulator.Control.Invariant
import Riscv32Simulator.Loading.BinaryFile
import Riscv32Simulator.Loading.ElfFile

/-! Whatever one of the loaders gives can be loaded into a machine and starts at its entry. -/

namespace Riscv32
open Checked Text

/-- The programs that the loaders give, from any stream and with any parameters. -/
inductive Loads : Program → Prop
  | words {input : Input} {ramSize : ℕ} {loadAddress entry : BitVec 32} {calloc : Bool}
    {p : Program} : programReadWords input ramSize loadAddress entry calloc = .ok p → Loads p
  | binary {input : Input} {ramSize : ℕ} {loadAddress entry : BitVec 32} {malloc : ℕ → Bool}
    {calloc : Bool} {p : Program} :
    programReadBinary input ramSize loadAddress entry malloc calloc = .ok p → Loads p
  | elf {input : Input} {ramSize : ℕ} {malloc : ℕ → Bool} {calloc : Bool} {p : Program} :
    programReadElf input ramSize malloc calloc = .ok p → Loads p

structure Runnable (p : Program) : Prop where
  ready : memoryReady p.memory = true
  aligned : p.entry.toNat % 4 = 0
  above : p.loadAddress.toNat ≤ p.entry.toNat
  inside : p.entry.toNat + 4 ≤ p.loadAddress.toNat + p.imageSize
  fits : p.loadAddress.toNat + p.imageSize ≤ p.memory.size

/-! ## Loaded programs -/

theorem BinaryAccepted.runnable {ramSize : ℕ} {loadAddress entry : BitVec 32}
    {bytes : List (BitVec 8)} (h : BinaryAccepted ramSize loadAddress entry bytes) :
    Runnable (binaryProgram ramSize loadAddress entry bytes) := by
  obtain ⟨hsize, -, -, h4, hentry, -⟩ := programAddressValid_ok h.address
  refine ⟨?_, h4, hentry, h.entry, h.fits⟩
  rw [binaryProgram, memoryReady_splice, memoryReady, Memory.size_zeroed, hsize]
  rfl

theorem Runnable.of_sameLoad {p q : Program} (h : SameLoad p q) (hq : Runnable q) : Runnable p := by
  obtain ⟨h1, h2, h3, h4, h5⟩ := hq
  rw [← h.memory] at h1 h5
  rw [← h.entry] at h2 h3 h4
  rw [← h.loadAddress] at h3 h4 h5
  rw [← h.imageSize] at h4 h5
  exact ⟨h1, h2, h3, h4, h5⟩

theorem readWordsLoop_failing (availableBytes : ℕ) (xs line : List (BitVec 8)) (n : ℕ)
    (p q : Program) : readWordsLoop true availableBytes xs line n p ≠ .ok q := by
  induction xs generalizing line n p with
  | nil =>
    intro h
    cases h
  | cons ch rest ih =>
    rw [readWordsLoop]
    split_ifs
    · cases readLine availableBytes (n + 1) line p with
      | error e =>
        intro h
        cases h
      | ok p' => exact ih [] (n + 1) p'
    · intro h
      cases h
    · intro h
      cases h
    · exact ih _ n p

theorem runnable_of_words {input : Input} {ramSize : ℕ} {loadAddress entry : BitVec 32}
    {calloc : Bool} {p : Program}
    (h : programReadWords input ramSize loadAddress entry calloc = .ok p) : Runnable p := by
  have hvalid : programAddressValid ramSize loadAddress entry = .ok () := by
    unfold programReadWords at h
    cases hv : programAddressValid ramSize loadAddress entry with
    | error e =>
      rw [hv] at h
      cases h
    | ok u => rfl
  have hsize := (programAddressValid_ok hvalid).1
  have hcalloc : calloc = true := by
    by_contra hc
    rw [programReadWords, hvalid, memoryInit_empty, Bool.eq_false_iff.mpr hc, Bool.and_false] at h
    cases h
  obtain ⟨text, failing⟩ := input
  have hfailing : failing = false := by
    by_contra hc
    rw [programReadWords, hvalid, memoryInit_empty, hsize, hcalloc] at h
    rw [Bool.not_eq_false] at hc
    subst hc
    exact readWordsLoop_failing _ _ _ _ _ _ h
  subst hcalloc hfailing
  -- a text that is loaded has no failing line, so it is a rendering of words
  rcases holds_or_lineFails (ramSize - loadAddress.toNat) (lines 0x0A#8 text) with
    ⟨ms, hms, -⟩ | ⟨i, hi⟩
  · rcases programReadWords_rendering hms ramSize loadAddress entry with
      ⟨haccepted, hok⟩ | ⟨-, e, he⟩
    · obtain rfl := Except.ok.inj (hok.symm.trans h)
      exact haccepted.runnable.of_sameLoad (placed_sameLoad ..)
    · cases he.symm.trans h
  · obtain ⟨message, he⟩ := programReadWords_fails hvalid hi
    cases he.symm.trans h

theorem IsElfImage.runnable {file : List (BitVec 8)} {ramSize : ℕ} {p : Program}
    (h : IsElfImage file ramSize p) (ha : ElfAccepted file ramSize) : Runnable p := by
  obtain ⟨i, s, hs, -, hlo, hhi⟩ := h.entryHeld
  have hfits := (ha.entries i (segmentAt_lt hs)).fits hs
  have hfilesz := hfits.filesz
  have hspan := (h.span _ _).mp ⟨le_rfl, le_rfl⟩ i s hs (by omega)
  refine ⟨h.ready, h.entryAligned, by omega, by omega, ?_⟩
  rw [h.size]
  exact ((h.span 0 ramSize).mpr fun i s hs _ => ⟨Nat.zero_le _, h.inside i s hs⟩).2

theorem Loads.runnable {p : Program} (h : Loads p) : Runnable p := by
  cases h with
  | words h => exact runnable_of_words h
  | binary h =>
    obtain ⟨haccepted, rfl⟩ := (meets_programReadBinary ..).of_ok h
    exact haccepted.runnable
  | elf h =>
    obtain ⟨-, himage, haccepted⟩ := (meets_programReadElf ..).of_ok h
    exact himage.runnable haccepted

theorem Runnable.accepted {p : Program} (h : Runnable p) : machineLoadRejects p = false := by
  obtain ⟨hready, h4, habove, hinside, hfits⟩ := h
  have hsome := memoryReady_isSome hready
  have hsize := memoryReady_size hready
  have hmin := ((memorySizeValid_iff _).mp hsize).1
  have hword : memoryWordSize = 4 := rfl
  have hsub : (p.entry - p.loadAddress).toNat = p.entry.toNat - p.loadAddress.toNat :=
    BitVec.toNat_sub_of_le habove
  simp only [machineLoadRejects, Bool.or_eq_false_iff, decide_eq_false_iff_not,
    bne_eq_false_iff_eq, hsub, hsize, hword, Option.isNone_eq_false_iff]
  exact ⟨⟨⟨⟨⟨⟨⟨hsome, rfl⟩, by omega⟩, by omega⟩, by omega⟩, h4⟩, BitVec.not_lt.mpr habove⟩,
    by omega⟩

/-! ## The first step -/

theorem commit_instruction (cpu : Cpu) (memory : Memory) (record : CpuStepRecord) (o : Operation)
    (nextPc value : BitVec 32) :
    (commit cpu memory record o nextPc value).record.instruction = record.instruction := by
  unfold commit
  dsimp only
  split
  · split <;> rfl
  · rfl

theorem access_instruction (cpu : Cpu) (memory : Memory) (record : CpuStepRecord) (o : Operation)
    (nextPc left right : BitVec 32) :
    (access cpu memory record o nextPc left right).record.instruction = record.instruction := by
  unfold access
  dsimp only
  split
  · rfl
  split
  · rfl
  split
  · split
    · rfl
    · exact commit_instruction ..
  · exact commit_instruction ..

theorem finish_instruction (cpu : Cpu) (memory : Memory) (record : CpuStepRecord)
    (i : Rv32i.Instr) :
    (finish cpu memory record i).record.instruction = record.instruction := by
  unfold finish
  cases operationOf cpu.programCounter (leftOf cpu memory) (rightOf cpu memory) i with
  | error e => rfl
  | ok o =>
    dsimp only
    generalize (if formatOf i = .b ∧ o.transfer then cpu.programCounter + immediateOf i
      else o.nextPc) = nextPc
    split
    · rfl
    split
    · exact access_instruction ..
    · exact commit_instruction ..

theorem cpuStepRecorded_instruction {cpu : Cpu} {memory : Memory} (hh : cpu.halted = false)
    (hpc : misaligned cpu.programCounter 4 = false)
    (hram : inRam memory cpu.programCounter 4 = true) :
    (cpuStepRecorded cpu memory).record.instruction =
      instructionDecode (wordAtPc cpu memory) := by
  rw [cpuStepRecorded, execute_decode hh hpc hram]
  dsimp only
  cases instrAt cpu memory with
  | none => rfl
  | some i => exact finish_instruction ..

/-- The first attempt reads a whole instruction word of the image at the entry. -/
structure StartsAt (p : Program) (run : MachineRun) : Prop where
  attempts : run.attempts = 1
  pcBefore : run.last.pcBefore = p.entry
  fetched : run.last.fetched = true
  inside : p.loadAddress.toNat ≤ p.entry.toNat ∧
    p.entry.toNat + 4 ≤ p.loadAddress.toNat + p.imageSize
  word : ∃ w, memoryReadU32 p.memory p.entry = some w ∧ run.last.instruction = instructionDecode w
  noAccess : run.last.trap.raised = true → run.last.trap.cause ≠ .instructionAccess
  noMisaligned : run.last.trap.raised = true → run.last.trap.cause = .instructionMisaligned →
    run.last.trap.value ≠ p.entry

theorem Runnable.startsAt {p : Program} (h : Runnable p) :
    StartsAt p (machineStep (loadedMachine p)).1 := by
  have hload := h.fits
  have hpc : misaligned p.entry 4 = false := misaligned_eq_false.mpr h.aligned
  have hram : inRam p.memory p.entry 4 = true := by
    have hinside := h.inside
    rw [inRam, h.ready, Bool.true_and, decide_eq_true_eq]
    omega
  have hactive : active (loadedMachine p) := ⟨rfl, rfl⟩
  obtain ⟨hattempts, hlast⟩ := machineStep_attempt hactive
  have hword : cpuFetchInstruction { programCounter := p.entry } p.memory =
      some (wordAtPc { programCounter := p.entry } p.memory) :=
    cpuFetchInstruction_eq hpc hram
  have hinstruction : (machineAttempt (loadedMachine p)).record.instruction =
      instructionDecode (wordAtPc { programCounter := p.entry } p.memory) :=
    cpuStepRecorded_instruction rfl hpc hram
  have hcases := cpuStepRecorded_cases { programCounter := p.entry } p.memory
  -- a fresh CPU is not halted: the attempt traps past the fetch or retires
  rcases hcases with hh | ⟨c, hf, ht⟩ | ⟨-, i, -, hr⟩
  · cases hh
  · obtain ⟨hfetched, haccess, hmisaligned⟩ := firstTrap_past_fetch hf hpc hram
    have htrap : (machineAttempt (loadedMachine p)).record.trap = ⟨true, c.cause, p.entry, c.value⟩ :=
      ht.trap
    refine ⟨hattempts, ?_, ?_, ⟨h.above, h.inside⟩, ⟨_, hword, ?_⟩, ?_, ?_⟩ <;> rw [hlast]
    · exact ht.before.1
    · exact ht.fetched.trans hfetched
    · exact hinstruction
    · rw [htrap]
      exact fun _ => haccess
    · rw [htrap]
      intro _ hcause hvalue
      have hmis := hmisaligned hcause
      rw [show c.value = p.entry from hvalue, hpc] at hmis
      cases hmis
  · have htrap : (machineAttempt (loadedMachine p)).record.trap = {} := hr.trap
    refine ⟨hattempts, ?_, ?_, ⟨h.above, h.inside⟩, ⟨_, hword, ?_⟩, ?_, ?_⟩ <;> rw [hlast]
    · exact hr.before.1
    · exact hr.fetched
    · exact hinstruction
    · rw [htrap]
      intro hraised
      cases hraised
    · rw [htrap]
      intro hraised
      cases hraised

/-- Every loaded program is accepted by a machine, which then starts at the entry. -/
theorem loaded_program_runs {p : Program} (h : Loads p) (m : Machine) :
    ∃ m', machineLoad m p true true = (true, m') ∧ m'.cpu.programCounter = p.entry ∧
      (∀ r, m'.cpu.registers r = 0) ∧ m'.memory = p.memory ∧ StartsAt p (machineStep m').1 := by
  have hr := h.runnable
  refine ⟨loadedMachine p, ?_, rfl, fun _ => rfl, rfl, hr.startsAt⟩
  rw [machineLoad_eq, if_pos ⟨hr.accepted, rfl, rfl⟩]

theorem loaded_program_runs_zeroWord :
    ∃ p m', programReadBinary { rest := [0, 0, 0, 0] } 4 0 0 (fun _ => true) true = .ok p ∧
      machineLoad machineInit p true true = (true, m') ∧ StartsAt p (machineStep m').1 := by
  have hok : (programReadBinary { rest := [0, 0, 0, 0] } 4 0 0 (fun _ => true) true).isOk = true := by
    decide +kernel
  cases h : programReadBinary { rest := [0, 0, 0, 0] } 4 0 0 (fun _ => true) true with
  | error e =>
    rw [h] at hok
    exact absurd hok Bool.false_ne_true
  | ok p =>
    obtain ⟨m', hload, -, -, -, hstart⟩ := loaded_program_runs (.binary h) machineInit
    exact ⟨p, m', rfl, hload, hstart⟩

end Riscv32
