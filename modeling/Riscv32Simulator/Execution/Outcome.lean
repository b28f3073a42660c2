import Riscv32Simulator.Execution.Access
import Riscv32Simulator.Isa.Effects

/-! The outcome of one attempt: the first failing check stops it and leaves everything in place,
or the instruction retires with exactly the effects of its RV32I meaning. -/

namespace Riscv32
open Splice
open Rv32i (Instr Word Access rdOf rs1Of rs2Of)

/-! ## Why an attempt stops -/

structure TrapCheck where
  fails : Bool
  result : CpuStepResult
  cause : CpuTrapCause
  value : Word
  /-- The instruction word was read before this check. -/
  fetched : Bool := true

def inRam (memory : Memory) (a : Word) (width : ℕ) : Bool :=
  memoryReady memory && a.toNat + width ≤ memory.size

def wordAtPc (cpu : Cpu) (memory : Memory) : Word := Rv32i.wordAt memory.at cpu.programCounter
def leftOf (cpu : Cpu) (memory : Memory) : Word := cpu.x (rs1Of (wordAtPc cpu memory))
def rightOf (cpu : Cpu) (memory : Memory) : Word := cpu.x (rs2Of (wordAtPc cpu memory))

def targetOf (cpu : Cpu) (memory : Memory) (i : Instr) : Option Word :=
  i.target cpu.programCounter (leftOf cpu memory) (rightOf cpu memory)

def accessOf (cpu : Cpu) (memory : Memory) (i : Instr) : Option Access :=
  i.access (leftOf cpu memory)

def instrAt (cpu : Cpu) (memory : Memory) : Option Instr := Rv32i.decode (wordAtPc cpu memory)

def targetAt (cpu : Cpu) (memory : Memory) : Option Word :=
  (instrAt cpu memory).bind (targetOf cpu memory)

def accessAt (cpu : Cpu) (memory : Memory) : Option Access :=
  (instrAt cpu memory).bind (accessOf cpu memory)

def addressAt (cpu : Cpu) (memory : Memory) : Word :=
  ((accessAt cpu memory).map Access.address).getD 0

def misaligned (a : Word) (width : ℕ) : Bool := a.toNat % width != 0

/-- The checks of an attempt in their order of priority. -/
def trapChecks (cpu : Cpu) (memory : Memory) : List TrapCheck :=
  [ ⟨misaligned cpu.programCounter 4,
      .misalignedPc, .instructionMisaligned, cpu.programCounter, false⟩,
    ⟨!inRam memory cpu.programCounter 4,
      .fetchFailed, .instructionAccess, cpu.programCounter, false⟩,
    ⟨(instrAt cpu memory).isNone,
      .unknownInstruction, .illegalInstruction, wordAtPc cpu memory, true⟩,
    ⟨instrAt cpu memory == some .ecall, .ecall, .userEcall, 0, true⟩,
    ⟨instrAt cpu memory == some .ebreak, .breakpoint, .breakpoint, cpu.programCounter, true⟩,
    ⟨(targetAt cpu memory).any (misaligned · 4),
      .misalignedPc, .instructionMisaligned, (targetAt cpu memory).getD 0, true⟩,
    ⟨(accessAt cpu memory).any fun a => !a.store && misaligned a.address a.width,
      .loadMisaligned, .loadMisaligned, addressAt cpu memory, true⟩,
    ⟨(accessAt cpu memory).any fun a => a.store && misaligned a.address a.width,
      .storeMisaligned, .storeMisaligned, addressAt cpu memory, true⟩,
    ⟨(accessAt cpu memory).any fun a => !a.store && !inRam memory a.address a.width,
      .loadFailed, .loadAccess, addressAt cpu memory, true⟩,
    ⟨(accessAt cpu memory).any fun a => a.store && !inRam memory a.address a.width,
      .storeFailed, .storeAccess, addressAt cpu memory, true⟩ ]

def firstTrap (cpu : Cpu) (memory : Memory) : Option TrapCheck :=
  (trapChecks cpu memory).find? TrapCheck.fails

/-! ## What an attempt leaves behind -/

/-- An attempt that a check stopped: nothing moved, and the record says why. -/
structure Trapped (cpu : Cpu) (memory : Memory) (c : TrapCheck) (a : Attempt) : Prop where
  result : a.result = c.result
  sameCpu : a.cpu = cpu
  sameMemory : a.memory = memory
  reg : a.record.reg = {}
  incomplete : a.record.memory.completed = false
  notTaken : a.record.branchTaken = false
  trap : a.record.trap = ⟨true, c.cause, cpu.programCounter, c.value⟩
  fetched : a.record.fetched = c.fetched
  before : a.record.pcBefore = cpu.programCounter ∧ a.record.countBefore = cpu.instructionCount

def stored (memory : Memory) (right : Word) (a : Access) : Memory :=
  if a.store then memory.splice a.address.toNat
    (LittleEndian.bytes a.width (storeValue right a.width).toNat) else memory

def completedEffect (memory : Memory) (right : Word) (a : Access) : MemoryEffect where
  attempted := true
  completed := true
  write := a.store
  width := BitVec.ofNat 8 a.width
  address := a.address
  before := readValue memory a.address a.width
  after := if a.store then storeValue right a.width else readValue memory a.address a.width

def valueOf (cpu : Cpu) (memory : Memory) (i : Instr) : Word :=
  i.value memory.at cpu.programCounter (leftOf cpu memory) (rightOf cpu memory)

structure Retired (cpu : Cpu) (memory : Memory) (i : Instr) (a : Attempt) : Prop where
  result : a.result = .ok
  cpuAfter : a.cpu = (cpu.writeback i.dest (valueOf cpu memory i)).retire
    ((targetOf cpu memory i).getD (cpu.programCounter + 4))
  memoryAfter : a.memory = (accessOf cpu memory i).elim memory (stored memory (rightOf cpu memory))
  reg : a.record.reg = i.dest.elim {} fun rd => registerEffect cpu rd (valueOf cpu memory i)
  effect : a.record.memory =
    (accessOf cpu memory i).elim {} (completedEffect memory (rightOf cpu memory))
  taken : a.record.branchTaken = (targetOf cpu memory i).isSome
  trap : a.record.trap = {}
  fetched : a.record.fetched = true
  before : a.record.pcBefore = cpu.programCounter ∧ a.record.countBefore = cpu.instructionCount

structure Fresh (cpu : Cpu) (record : CpuStepRecord) : Prop where
  before : record.pcBefore = cpu.programCounter ∧ record.countBefore = cpu.instructionCount
  reg : record.reg = {}
  memory : record.memory = {}
  notTaken : record.branchTaken = false
  trap : record.trap = {}
  fetched : record.fetched = false

/-! ## The switch describes the effects -/

/-- The locals after the `switch`, read as the effects of an instruction. -/
structure Describes (o : Operation) (i : Instr) (rd : BitVec 5) (pc left right : Word)
    (memory : Memory) : Prop where
  transfer : o.transfer = (i.target pc left right).isSome
  next : (if formatOf i = .b ∧ o.transfer then pc + immediateOf i else o.nextPc) =
    (i.target pc left right).getD (pc + 4)
  dest : o.dest rd = i.dest
  noAccess : o.width = 0 → i.access left = none ∧ o.value = i.value memory.at pc left right
  access : o.width ≠ 0 → isWidth o.width ∧ o.transfer = false ∧
    i.access left = some ⟨o.store, o.width, left + immediateOf i⟩ ∧
    (o.store = false → memoryAccessValid memory (left + immediateOf i) o.width = true →
      loadValue (kindOf i) (readValue memory (left + immediateOf i) o.width) =
        i.value memory.at pc left right) ∧
    (o.store = true → i.dest = none)

theorem isWidth_load (r : Rv32i.LoadOp) : isWidth r.width := by
  cases r with
  | lb | lbu => exact .inl rfl
  | lh | lhu => exact .inr (.inl rfl)
  | lw => exact .inr (.inr rfl)

theorem isWidth_store (r : Rv32i.StoreOp) : isWidth r.width := by
  cases r with
  | sb => exact .inl rfl
  | sh => exact .inr (.inl rfl)
  | sw => exact .inr (.inr rfl)

theorem operationOf_describes {w : Word} {i : Instr} (h : Rv32i.decode w = some i) {o : Operation}
    {pc left right : Word} (ho : operationOf pc left right i = .ok o) (memory : Memory) :
    Describes o i (rdOf w) pc left right memory := by
  have hw := Rv32i.encode_of_decode h
  have hrd : ∀ r, i.rd? = some r → rdOf w = r := fun r hr => by rw [← hw, Rv32i.rdOf_encode hr]
  cases i with
  | op r rd | opImm r rd | shift r rd =>
    obtain rfl := Except.ok.inj ho
    exact ⟨rfl, rfl, congrArg some (hrd rd rfl), fun _ => ⟨rfl, rfl⟩, fun hn => absurd rfl hn⟩
  | upper r rd =>
    cases r <;> obtain rfl := Except.ok.inj ho <;>
      exact ⟨rfl, rfl, congrArg some (hrd rd rfl), fun _ => ⟨rfl, rfl⟩, fun hn => absurd rfl hn⟩
  | jal rd | jalr rd =>
    obtain rfl := Except.ok.inj ho
    exact ⟨rfl, rfl, congrArg some (hrd rd rfl), fun _ => ⟨rfl, rfl⟩, fun hn => absurd rfl hn⟩
  | fence =>
    obtain rfl := Except.ok.inj ho
    exact ⟨rfl, rfl, rfl, fun _ => ⟨rfl, rfl⟩, fun hn => absurd rfl hn⟩
  | branch r rs1 rs2 imm =>
    obtain rfl := Except.ok.inj ho
    refine ⟨?_, ?_, rfl, fun _ => ⟨rfl, rfl⟩, fun hn => absurd rfl hn⟩
    · cases ht : r.taken left right <;> simp [Instr.target, ht]
    · cases ht : r.taken left right <;>
        simp [Instr.target, ht, formatOf, immediateOf, Rv32i.offsetB]
  | load r rd rs1 imm =>
    obtain rfl := Except.ok.inj ho
    have hn : r.width ≠ 0 := by cases r <;> decide
    refine ⟨rfl, rfl, congrArg some (hrd rd rfl), fun h0 => absurd h0 hn, fun _ => ?_⟩
    exact ⟨isWidth_load r, rfl, rfl, fun _ hv => loadValue_eq r hv, by simp⟩
  | store r rs1 rs2 imm =>
    obtain rfl := Except.ok.inj ho
    have hn : r.width ≠ 0 := by cases r <;> decide
    refine ⟨rfl, rfl, rfl, fun h0 => absurd h0 hn, fun _ => ?_⟩
    exact ⟨isWidth_store r, rfl, rfl, by simp, fun _ => rfl⟩
  | ecall => cases ho
  | ebreak => cases ho

/-! ## Attempts -/

theorem memoryAccessValid_eq (memory : Memory) {a : Word} {n : ℕ} (hn : 0 < n)
    (ha : misaligned a n = false) : memoryAccessValid memory a n = inRam memory a n := by
  have ha0 : a.toNat % n = 0 := by simpa [misaligned] using ha
  rw [Bool.eq_iff_iff, memoryAccessValid_iff, inRam, Bool.and_eq_true, decide_eq_true_eq]
  exact ⟨fun h => ⟨h.1, h.2.2.1⟩, fun h => ⟨h.1, hn, h.2, ha0⟩⟩

/-- What the record holds while no check has failed and nothing is done yet. -/
structure Pending (cpu : Cpu) (fetched : Bool) (record : CpuStepRecord) : Prop where
  before : record.pcBefore = cpu.programCounter ∧ record.countBefore = cpu.instructionCount
  reg : record.reg = {}
  incomplete : record.memory.completed = false
  notTaken : record.branchTaken = false
  fetched : record.fetched = fetched

theorem fault_trapped {cpu : Cpu} {memory : Memory} {record : CpuStepRecord} {c : TrapCheck}
    (h : Pending cpu c.fetched record) :
    Trapped cpu memory c (fault cpu memory record c.result c.cause c.value) :=
  ⟨rfl, rfl, rfl, h.reg, h.incomplete, h.notTaken, by rw [fault, h.before.1], h.fetched, h.before⟩

/-- The whole of an attempt: its first failing check, or the retired instruction. -/
def Outcome (cpu : Cpu) (memory : Memory) (a : Attempt) : Prop :=
  match firstTrap cpu memory with
  | some c => Trapped cpu memory c a
  | none => ∃ i, instrAt cpu memory = some i ∧ Retired cpu memory i a

def decodedRecord (cpu : Cpu) (memory : Memory) (record : CpuStepRecord) : CpuStepRecord :=
  { record with
    fetched := true
    instruction := instructionDecode (wordAtPc cpu memory)
    rs1Value := leftOf cpu memory
    rs2Value := rightOf cpu memory }

theorem Fresh.decoded {cpu : Cpu} {record : CpuStepRecord} (h : Fresh cpu record)
    (memory : Memory) : Pending cpu true (decodedRecord cpu memory record) :=
  ⟨h.before, h.reg, by rw [decodedRecord, h.memory], h.notTaken, rfl⟩

theorem misaligned_eq_true {a : Word} {n : ℕ} : misaligned a n = true ↔ a.toNat % n ≠ 0 :=
  bne_iff_ne

theorem misaligned_eq_false {a : Word} {n : ℕ} : misaligned a n = false ↔ a.toNat % n = 0 := by
  rw [misaligned, bne_eq_false_iff_eq]

/-- `execute` from the decoded instruction on. -/
def finish (cpu : Cpu) (memory : Memory) (record : CpuStepRecord) (i : Instr) : Attempt :=
  match operationOf cpu.programCounter (leftOf cpu memory) (rightOf cpu memory) i with
  | .error (result, cause, value) => fault cpu memory record result cause value
  | .ok o =>
    let nextPc := if formatOf i = .b ∧ o.transfer then cpu.programCounter + immediateOf i
      else o.nextPc
    if o.transfer ∧ nextPc.toNat % 4 ≠ 0 then
      fault cpu memory record .misalignedPc .instructionMisaligned nextPc
    else if o.width ≠ 0 then
      access cpu memory { record with branchTaken := o.transfer } o nextPc
        (leftOf cpu memory) (rightOf cpu memory)
    else commit cpu memory { record with branchTaken := o.transfer } o nextPc o.value

theorem cpuFetchInstruction_eq {cpu : Cpu} {memory : Memory}
    (hpc : misaligned cpu.programCounter 4 = false)
    (hram : inRam memory cpu.programCounter 4 = true) :
    cpuFetchInstruction cpu memory = some (wordAtPc cpu memory) := by
  rw [cpuFetchInstruction, memoryReadU32_eq_wordAt, memoryAccessValid_eq memory (by decide) hpc,
    hram]
  rfl

section Stages

variable {cpu : Cpu} {memory : Memory} {record : CpuStepRecord}

theorem execute_misaligned (hh : cpu.halted = false) (h : misaligned cpu.programCounter 4 = true) :
    execute cpu memory record =
      fault cpu memory record .misalignedPc .instructionMisaligned cpu.programCounter := by
  rw [execute, hh]
  exact if_pos (misaligned_eq_true.mp h)

theorem execute_fetch (hh : cpu.halted = false) (h : misaligned cpu.programCounter 4 = false)
    (hr : inRam memory cpu.programCounter 4 = false) : execute cpu memory record =
      fault cpu memory record .fetchFailed .instructionAccess cpu.programCounter := by
  have hf : cpuFetchInstruction cpu memory = none := by
    rw [cpuFetchInstruction, memoryReadU32_eq_wordAt, memoryAccessValid_eq memory (by decide) h, hr]
    rfl
  rw [execute, hh, hf]
  exact if_neg (not_not.mpr (misaligned_eq_false.mp h))

theorem execute_decode (hh : cpu.halted = false) (h : misaligned cpu.programCounter 4 = false)
    (hr : inRam memory cpu.programCounter 4 = true) : execute cpu memory record =
      (instrAt cpu memory).elim
        (fault cpu memory
          { record with fetched := true, instruction := instructionDecode (wordAtPc cpu memory) }
          .unknownInstruction .illegalInstruction (wordAtPc cpu memory))
        (finish cpu memory (decodedRecord cpu memory record)) := by
  have hf := cpuFetchInstruction_eq h hr
  have ha := instructionDecode_agrees (wordAtPc cpu memory)
  have hfields := extractFields_eq (wordAtPc cpu memory)
  rw [← instructionDecode_fields] at hfields
  rw [execute, hh, hf]
  refine (if_neg Bool.false_ne_true).trans ((if_neg (not_not.mpr (misaligned_eq_false.mp h))).trans ?_)
  unfold instrAt
  cases hd : Rv32i.decode (wordAtPc cpu memory) with
  | none =>
    rw [hd] at ha
    exact if_pos ha.kind
  | some i =>
    rw [hd] at ha
    have hk : (instructionDecode (wordAtPc cpu memory)).kind = kindOf i := ha.kind
    refine (if_neg (hk ▸ kindOf_ne_unknown i)).trans ?_
    simp only [hfields, toNat_setWidth_eight, cpuReadRegister_eq, operation_eq hk (ha.immediate i rfl),
      ha.format i rfl, ha.immediate i rfl, add32_eq]
    rw [Option.elim, finish]
    rfl

/-! ### From the decoded instruction on -/

variable {i : Instr} {o : Operation}

def takenRecord (cpu : Cpu) (memory : Memory) (i : Instr) (record : CpuStepRecord) :
    CpuStepRecord :=
  { decodedRecord cpu memory record with branchTaken := (targetOf cpu memory i).isSome }

theorem takenRecord_rd (cpu : Cpu) (memory : Memory) (i : Instr) (record : CpuStepRecord) :
    (takenRecord cpu memory i record).instruction.fields.rd =
      (rdOf (wordAtPc cpu memory)).setWidth 8 := by
  rw [takenRecord, decodedRecord, instructionDecode_fields, extractFields_eq]

theorem takenRecord_agrees (hi : instrAt cpu memory = some i) (record : CpuStepRecord) :
    Agrees (takenRecord cpu memory i record).instruction (some i) := by
  rw [← show Rv32i.decode (wordAtPc cpu memory) = some i from hi]
  exact instructionDecode_agrees (wordAtPc cpu memory)

theorem finish_eq (hi : instrAt cpu memory = some i)
    (ho : operationOf cpu.programCounter (leftOf cpu memory) (rightOf cpu memory) i = .ok o)
    (ht : ∀ t ∈ targetOf cpu memory i, misaligned t 4 = false) :
    finish cpu memory (decodedRecord cpu memory record) i =
      if o.width ≠ 0 then
        access cpu memory (takenRecord cpu memory i record) o
          ((targetOf cpu memory i).getD (cpu.programCounter + 4)) (leftOf cpu memory)
          (rightOf cpu memory)
      else commit cpu memory (takenRecord cpu memory i record) o
        ((targetOf cpu memory i).getD (cpu.programCounter + 4)) o.value := by
  have hd := operationOf_describes hi ho memory
  have hn := hd.next
  rw [finish, ho]
  simp only [hn]
  simp only [hd.transfer]
  refine if_neg ?_
  rintro ⟨hs, hm⟩
  obtain ⟨t, hst⟩ := Option.isSome_iff_exists.mp hs
  rw [hst] at hm
  exact hm (misaligned_eq_false.mp (ht t hst))

theorem finish_target (hi : instrAt cpu memory = some i)
    (ho : operationOf cpu.programCounter (leftOf cpu memory) (rightOf cpu memory) i = .ok o)
    {t : Word} (ht : targetOf cpu memory i = some t) (hm : misaligned t 4 = true) :
    finish cpu memory record i =
      fault cpu memory record .misalignedPc .instructionMisaligned t := by
  have hd := operationOf_describes hi ho memory
  have hn := hd.next
  have htr := hd.transfer
  rw [show i.target cpu.programCounter _ _ = some t from ht] at hn htr
  rw [finish, ho]
  simp only [hn]
  simp only [htr]
  exact if_pos ⟨rfl, misaligned_eq_true.mp hm⟩

theorem commit_retired {r : CpuStepRecord} {m : Memory} {value : Word}
    (hrd : r.instruction.fields.rd = (rdOf (wordAtPc cpu memory)).setWidth 8)
    (hdest : o.dest (rdOf (wordAtPc cpu memory)) = i.dest)
    (hval : ∀ rd ∈ i.dest, value = valueOf cpu memory i)
    (hm : m = (accessOf cpu memory i).elim memory (stored memory (rightOf cpu memory)))
    (heffect : r.memory =
      (accessOf cpu memory i).elim {} (completedEffect memory (rightOf cpu memory)))
    (hreg : r.reg = {}) (htaken : r.branchTaken = (targetOf cpu memory i).isSome)
    (htrap : r.trap = {}) (hf : r.fetched = true)
    (hbefore : r.pcBefore = cpu.programCounter ∧ r.countBefore = cpu.instructionCount) :
    Retired cpu memory i
      (commit cpu m r o ((targetOf cpu memory i).getD (cpu.programCounter + 4)) value) := by
  rw [commit_eq hrd, hdest, hreg]
  cases hd : i.dest with
  | none => exact ⟨rfl, by rw [hd]; rfl, hm, by rw [hd]; rfl, heffect, htaken, htrap, hf, hbefore⟩
  | some rd =>
    rw [hval rd hd]
    exact ⟨rfl, by rw [hd], hm, by rw [hd], heffect, htaken, htrap, hf, hbefore⟩

theorem finish_retired (hi : instrAt cpu memory = some i)
    (ho : operationOf cpu.programCounter (leftOf cpu memory) (rightOf cpu memory) i = .ok o)
    (hr : Fresh cpu record) (ht : ∀ t ∈ targetOf cpu memory i, misaligned t 4 = false)
    (ha : ∀ a ∈ accessOf cpu memory i, memoryAccessValid memory a.address a.width = true) :
    Retired cpu memory i (finish cpu memory (decodedRecord cpu memory record) i) := by
  have hd := operationOf_describes hi ho memory
  have hrd := takenRecord_rd cpu memory i record
  rw [finish_eq hi ho ht]
  -- without a width the operation writes back at once
  by_cases hw : o.width = 0
  · obtain ⟨hacc, hval⟩ := hd.noAccess hw
    have hacc' : accessOf cpu memory i = none := hacc
    rw [if_neg (not_not.mpr hw), hval]
    exact commit_retired hrd hd.dest (fun _ _ => rfl) (by rw [hacc']; rfl)
      (by rw [hacc']; exact hr.memory) hr.reg rfl hr.trap rfl hr.before
  · obtain ⟨hwidth, -, hacc, hload, hstore⟩ := hd.access hw
    have hacc' : accessOf cpu memory i =
      some ⟨o.store, o.width, leftOf cpu memory + immediateOf i⟩ := hacc
    have hv := ha _ hacc'
    have hag := takenRecord_agrees hi record
    have haddr : leftOf cpu memory + (takenRecord cpu memory i record).instruction.immediate =
        leftOf cpu memory + immediateOf i := congrArg _ (hag.immediate i rfl)
    have hkind : (takenRecord cpu memory i record).instruction.kind = kindOf i := hag.kind
    rw [if_pos hw]
    cases hs : o.store with
    | false =>
      rw [access_load haddr hwidth hs hv, hkind, hload hs hv]
      exact commit_retired hrd hd.dest (fun _ _ => rfl) (by rw [hacc', hs]; rfl)
        (by rw [hacc', memoryEffect, hs]; rfl) hr.reg rfl hr.trap rfl hr.before
    | true =>
      rw [access_store haddr hwidth hs hv]
      refine commit_retired hrd hd.dest ?_ (by rw [hacc', hs]; rfl)
        (by rw [hacc', memoryEffect, hs]; rfl) hr.reg rfl hr.trap rfl hr.before
      -- a store has no destination
      rw [hstore hs]
      intro _ hdest
      cases hdest

theorem operationOf_error (pc left right : Word) {e : CpuStepResult × CpuTrapCause × Word}
    (he : operationOf pc left right i = .error e) :
    i = .ecall ∧ e = (.ecall, .userEcall, 0) ∨ i = .ebreak ∧ e = (.breakpoint, .breakpoint, pc) := by
  cases i with
  | ecall => exact .inl ⟨rfl, (Except.error.inj he).symm⟩
  | ebreak => exact .inr ⟨rfl, (Except.error.inj he).symm⟩
  | upper r => cases r <;> nomatch he
  | _ => nomatch he

theorem operationOf_ok {pc left right : Word} (ho : operationOf pc left right i = .ok o) :
    i ≠ .ecall ∧ i ≠ .ebreak := by
  constructor <;> rintro rfl <;> nomatch ho

theorem finish_outcome (hh : misaligned cpu.programCounter 4 = false)
    (hram : inRam memory cpu.programCounter 4 = true) (hi : instrAt cpu memory = some i)
    (ho : operationOf cpu.programCounter (leftOf cpu memory) (rightOf cpu memory) i = .ok o)
    (hr : Fresh cpu record) :
    Outcome cpu memory (finish cpu memory (decodedRecord cpu memory record) i) := by
  have hd := operationOf_describes hi ho memory
  obtain ⟨hecall, hebreak⟩ := operationOf_ok ho
  have h1 : (some i == some Instr.ecall) = false := by simpa using hecall
  have h2 : (some i == some Instr.ebreak) = false := by simpa using hebreak
  have htarget : targetAt cpu memory = targetOf cpu memory i := by rw [targetAt, hi]; rfl
  have haccess : accessAt cpu memory = accessOf cpu memory i := by rw [accessAt, hi]; rfl
  have hpending := hr.decoded memory
  unfold Outcome
  -- the remaining checks in their order: the target, then the access
  cases hm : (targetOf cpu memory i).any (misaligned · 4) with
  | true =>
    obtain ⟨t, ht, htm⟩ := (Option.any_eq_true _ _).mp hm
    simp only [firstTrap, trapChecks, List.find?, hh, hram, hi, h1, h2, htarget, hm,
      Option.isNone_some, Bool.not_true]
    rw [finish_target hi ho ht htm, ht]
    exact fault_trapped hpending
  | false =>
    have hta : ∀ t ∈ targetOf cpu memory i, misaligned t 4 = false := fun t ht => by
      rw [ht] at hm
      exact hm
    simp only [firstTrap, trapChecks, List.find?, hh, hram, hi, h1, h2, htarget, hm, haccess,
      Option.isNone_some, Bool.not_true]
    cases hacc : accessOf cpu memory i with
    | none =>
      have ha : ∀ a ∈ accessOf cpu memory i,
          memoryAccessValid memory a.address a.width = true := by rw [hacc]; exact nofun
      exact ⟨i, rfl, finish_retired hi ho hr hta ha⟩
    | some a =>
      have hw : o.width ≠ 0 := fun h0 => by
        rw [accessOf, (hd.noAccess h0).1] at hacc
        nomatch hacc
      obtain ⟨hwidth, hno, hacc', -, -⟩ := hd.access hw
      -- the access of the instruction is the one the operation asks for
      obtain rfl : ⟨o.store, o.width, leftOf cpu memory + immediateOf i⟩ = a := by
        rw [accessOf, hacc'] at hacc
        exact Option.some.inj hacc
      have haddr : leftOf cpu memory + (takenRecord cpu memory i record).instruction.immediate =
          leftOf cpu memory + immediateOf i :=
        congrArg _ ((takenRecord_agrees hi record).immediate i rfl)
      have haddrAt : addressAt cpu memory = leftOf cpu memory + immediateOf i := by
        rw [addressAt, haccess, hacc]
        rfl
      have hpend : Pending cpu true { takenRecord cpu memory i record with
          memory := memoryEffect o (leftOf cpu memory + immediateOf i) } :=
        ⟨hr.before, hr.reg, rfl, hd.transfer.symm.trans hno, rfl⟩
      cases hmis : misaligned (leftOf cpu memory + immediateOf i) o.width with
      | true =>
        rw [finish_eq hi ho hta, if_pos hw, access_misaligned haddr (misaligned_eq_true.mp hmis)]
        cases o.store <;> simp only [Option.any_some, hmis, haddrAt, Bool.not_false,
          Bool.not_true, Bool.true_and, Bool.false_and] <;> exact fault_trapped hpend
      | false =>
        have hvalid := memoryAccessValid_eq memory (Nat.pos_of_ne_zero hw) hmis
        cases hin : inRam memory (leftOf cpu memory + immediateOf i) o.width with
        | true =>
          have ha : ∀ a ∈ accessOf cpu memory i,
              memoryAccessValid memory a.address a.width = true := fun a ha => by
            rw [hacc] at ha
            obtain rfl := Option.some.inj ha
            exact hvalid.trans hin
          simp only [Option.any_some, hmis, hin, Bool.not_true, Bool.and_false]
          exact ⟨i, rfl, finish_retired hi ho hr hta ha⟩
        | false =>
          rw [finish_eq hi ho hta, if_pos hw,
            access_outside haddr hwidth (misaligned_eq_false.mp hmis) (hvalid.trans hin)]
          cases o.store <;> simp only [Option.any_some, hmis, hin, haddrAt, Bool.not_false,
            Bool.not_true, Bool.true_and, Bool.false_and, Bool.and_false] <;> exact fault_trapped hpend

/-- An attempt of a running CPU ends as its first failing check says, or retires. -/
theorem execute_outcome (hh : cpu.halted = false) (hr : Fresh cpu record) (memory : Memory) :
    Outcome cpu memory (execute cpu memory record) := by
  have hp : Pending cpu false record :=
    ⟨hr.before, hr.reg, by rw [hr.memory], hr.notTaken, hr.fetched⟩
  -- one case for each check up to the decoding
  cases hpc : misaligned cpu.programCounter 4 with
  | true =>
    rw [Outcome, execute_misaligned hh hpc]
    simp only [firstTrap, trapChecks, List.find?, hpc]
    exact fault_trapped hp
  | false =>
    cases hram : inRam memory cpu.programCounter 4 with
    | false =>
      rw [Outcome, execute_fetch hh hpc hram]
      simp only [firstTrap, trapChecks, List.find?, hpc, hram, Bool.not_false]
      exact fault_trapped hp
    | true =>
      rw [execute_decode hh hpc hram]
      cases hi : instrAt cpu memory with
      | none =>
        unfold Outcome
        simp only [firstTrap, trapChecks, List.find?, hpc, hram, hi, Bool.not_true,
          Option.isNone_none]
        exact fault_trapped ⟨hp.before, hp.reg, hp.incomplete, hp.notTaken, rfl⟩
      | some i =>
        rw [Option.elim]
        cases ho : operationOf cpu.programCounter (leftOf cpu memory) (rightOf cpu memory) i with
        | ok o => exact finish_outcome hpc hram hi ho hr
        | error e =>
          rw [Outcome, finish, ho]
          rcases operationOf_error _ _ _ ho with ⟨rfl, rfl⟩ | ⟨rfl, rfl⟩
          · simp only [firstTrap, trapChecks, List.find?, hpc, hram, hi, Bool.not_true,
              Option.isNone_some, beq_self_eq_true]
            exact fault_trapped (hr.decoded memory)
          · have hne : (some Instr.ebreak == some Instr.ecall) = false := rfl
            simp only [firstTrap, trapChecks, List.find?, hpc, hram, hi, Bool.not_true,
              Option.isNone_some, hne, beq_self_eq_true]
            exact fault_trapped (hr.decoded memory)

end Stages

theorem cpuStepRecorded_outcome {cpu : Cpu} (hh : cpu.halted = false) (memory : Memory) :
    Outcome cpu memory (cpuStepRecorded cpu memory) := by
  have h : Outcome cpu memory (execute cpu memory
      { pcBefore := cpu.programCounter, pcAfter := cpu.programCounter,
        countBefore := cpu.instructionCount, countAfter := cpu.instructionCount }) :=
    execute_outcome hh ⟨⟨rfl, rfl⟩, rfl, rfl, rfl, rfl, rfl⟩ memory
  rw [Outcome] at h ⊢
  cases hf : firstTrap cpu memory with
  | some c =>
    rw [hf] at h
    exact ⟨h.result, h.sameCpu, h.sameMemory, h.reg, h.incomplete, h.notTaken, h.trap, h.fetched,
      h.before⟩
  | none =>
    rw [hf] at h
    obtain ⟨i, hi, h⟩ := h
    exact ⟨i, hi, h.result, h.cpuAfter, h.memoryAfter, h.reg, h.effect, h.taken, h.trap, h.fetched,
      h.before⟩

theorem cpuStepRecorded_halted {cpu : Cpu} (hh : cpu.halted = true) (memory : Memory) :
    cpuStepRecorded cpu memory =
      { result := .halted
        cpu := cpu
        memory := memory
        record :=
          { result := .halted, pcBefore := cpu.programCounter, pcAfter := cpu.programCounter,
            countBefore := cpu.instructionCount, countAfter := cpu.instructionCount } } := by
  rw [cpuStepRecorded, execute, hh]
  rfl

theorem firstTrap_result {cpu : Cpu} {memory : Memory} {c : TrapCheck}
    (h : firstTrap cpu memory = some c) :
    c.result ≠ .ok ∧ c.result ≠ .halted ∧ c.result ≠ .invalidArgument := by
  have hall : ∀ x ∈ trapChecks cpu memory,
      x.result ≠ .ok ∧ x.result ≠ .halted ∧ x.result ≠ .invalidArgument := by
    simp [trapChecks]
  exact hall c (List.mem_of_find?_eq_some h)

theorem cpuStepRecorded_cases (cpu : Cpu) (memory : Memory) :
    cpu.halted = true ∨
    (∃ c, firstTrap cpu memory = some c ∧ Trapped cpu memory c (cpuStepRecorded cpu memory)) ∨
    (firstTrap cpu memory = none ∧
      ∃ i, instrAt cpu memory = some i ∧ Retired cpu memory i (cpuStepRecorded cpu memory)) := by
  cases hh : cpu.halted with
  | true => exact .inl rfl
  | false =>
    have hout := cpuStepRecorded_outcome hh memory
    unfold Outcome at hout
    cases hf : firstTrap cpu memory with
    | some c =>
      rw [hf] at hout
      exact .inr (.inl ⟨c, rfl, hout⟩)
    | none =>
      rw [hf] at hout
      exact .inr (.inr ⟨rfl, hout⟩)

theorem cpuStepRecorded_retired {cpu : Cpu} {memory : Memory}
    (h : (cpuStepRecorded cpu memory).result = .ok) : firstTrap cpu memory = none ∧
      ∃ i, instrAt cpu memory = some i ∧ Retired cpu memory i (cpuStepRecorded cpu memory) := by
  rcases cpuStepRecorded_cases cpu memory with hh | ⟨c, hf, ht⟩ | hr
  · rw [cpuStepRecorded_halted hh] at h
    nomatch h
  · exact absurd (ht.result.symm.trans h) (firstTrap_result hf).1
  · exact hr

theorem cpuStepRecorded_before (cpu : Cpu) (memory : Memory) :
    (cpuStepRecorded cpu memory).record.pcBefore = cpu.programCounter ∧
      (cpuStepRecorded cpu memory).record.countBefore = cpu.instructionCount := by
  rcases cpuStepRecorded_cases cpu memory with hh | ⟨c, -, ht⟩ | ⟨-, i, -, hr⟩
  · rw [cpuStepRecorded_halted hh]
    exact ⟨rfl, rfl⟩
  · exact ht.before
  · exact hr.before

theorem firstTrap_past_fetch {cpu : Cpu} {memory : Memory} {c : TrapCheck}
    (h : firstTrap cpu memory = some c) (hpc : misaligned cpu.programCounter 4 = false)
    (hram : inRam memory cpu.programCounter 4 = true) :
    c.fetched = true ∧ c.cause ≠ .instructionAccess ∧
      (c.cause = .instructionMisaligned → misaligned c.value 4 = true) := by
  have hmem := List.mem_of_find?_eq_some h
  have hfails := List.find?_some h
  simp only [trapChecks, List.mem_cons, List.not_mem_nil, or_false] at hmem
  rcases hmem with rfl | rfl | rfl | rfl | rfl | rfl | rfl | rfl | rfl | rfl
  · cases hpc.symm.trans hfails
  · rw [hram] at hfails
    cases hfails
  · exact ⟨rfl, by simp, by simp⟩
  · exact ⟨rfl, by simp, by simp⟩
  · exact ⟨rfl, by simp, by simp⟩
  · obtain ⟨t, ht, hm⟩ := (Option.any_eq_true _ _).mp hfails
    refine ⟨rfl, by simp, fun _ => ?_⟩
    rw [ht]
    exact hm
  all_goals exact ⟨rfl, by simp, by simp⟩

theorem cpuStepRecorded_fetch {cpu : Cpu} {memory : Memory} (hh : cpu.halted = false)
    (hpc : misaligned cpu.programCounter 4 = false) :
    (inRam memory cpu.programCounter 4 = true →
      (cpuStepRecorded cpu memory).record.fetched = true) ∧
    (inRam memory cpu.programCounter 4 = false →
      (cpuStepRecorded cpu memory).record.trap =
        ⟨true, .instructionAccess, cpu.programCounter, cpu.programCounter⟩) := by
  constructor
  · intro hram
    rcases cpuStepRecorded_cases cpu memory with h | ⟨c, hf, ht⟩ | ⟨-, i, -, hr⟩
    · exact absurd (hh.symm.trans h) Bool.false_ne_true
    · exact ht.fetched.trans (firstTrap_past_fetch hf hpc hram).1
    · exact hr.fetched
  · intro hram
    rw [cpuStepRecorded, execute_fetch hh hpc hram]
    rfl

end Riscv32
