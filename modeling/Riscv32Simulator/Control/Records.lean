import Riscv32Simulator.Control.Schedule
import Riscv32Simulator.Control.Traps
import Riscv32Simulator.Execution.Refinement

/-! The record of an attempt says how to redo it and how to undo it; so do the records of a run. -/

namespace Riscv32
open Splice LabelledRun
open Rv32i (Instr Word Access accessible)

abbrev Snapshot := Cpu × Memory

def RegisterEffect.put (e : RegisterEffect) (v : Word) (cpu : Cpu) : Cpu :=
  { cpu with registers := fun k =>
      if e.written = true ∧ e.index ≠ 0 ∧ k.val = e.index.toNat then v else cpu.registers k }

def MemoryEffect.put (e : MemoryEffect) (v : Word) (memory : Memory) : Memory :=
  if e.completed = true ∧ e.write = true then
    memory.splice e.address.toNat (LittleEndian.bytes e.width.toNat v.toNat)
  else memory

def CpuStepRecord.redo (s : Snapshot) (r : CpuStepRecord) : Snapshot :=
  ({ r.reg.put r.reg.after s.1 with
      programCounter := r.pcAfter, instructionCount := r.countAfter },
    r.memory.put r.memory.after s.2)

def CpuStepRecord.undo (r : CpuStepRecord) (s : Snapshot) : Snapshot :=
  ({ r.reg.put r.reg.before s.1 with
      programCounter := r.pcBefore, instructionCount := r.countBefore },
    r.memory.put r.memory.before s.2)

/-! ## What a record can change -/

theorem RegisterEffect.put_unwritten {e : RegisterEffect} (h : e.written = false) (v : Word)
    (cpu : Cpu) : e.put v cpu = cpu := by
  simp [put, h]

theorem MemoryEffect.put_incomplete {e : MemoryEffect} (h : e.completed = false) (v : Word)
    (memory : Memory) : e.put v memory = memory := by
  simp [put, h]

theorem redo_register {s : Snapshot} {r : CpuStepRecord} {k : Fin 32}
    (h : (r.redo s).1.registers k ≠ s.1.registers k) :
    r.reg.written = true ∧ k ≠ 0 ∧ k.val = r.reg.index.toNat := by
  by_contra hc
  refine h (if_neg fun hk => hc ⟨hk.1, ?_, hk.2.2⟩)
  rintro rfl
  exact hk.2.1 (BitVec.eq_of_toNat_eq hk.2.2.symm)

theorem byte_splice_of_outside (m : Memory) {a i : ℕ} (ys : List (BitVec 8))
    (h : i < a ∨ a + ys.length ≤ i) : (m.splice a ys).byte i = m.byte i := by
  rw [Memory.byte, Memory.contents_splice]
  cases hb : m.bytes with
  | none => simp [Memory.byte, Memory.contents, hb]
  | some b =>
    rw [Option.isSome_some, if_pos rfl, List.getD_eq_getElem?_getD,
      getElem?_overwrite_of_outside _ _ h, ← List.getD_eq_getElem?_getD]
    rfl

theorem redo_byte {s : Snapshot} {r : CpuStepRecord} {i : ℕ}
    (h : (r.redo s).2.byte i ≠ s.2.byte i) :
    r.memory.completed = true ∧ r.memory.write = true ∧ r.memory.address.toNat ≤ i ∧
      i < r.memory.address.toNat + r.memory.width.toNat := by
  have hput : (r.redo s).2 = r.memory.put r.memory.after s.2 := rfl
  rw [hput, MemoryEffect.put] at h
  by_cases hw : r.memory.completed = true ∧ r.memory.write = true
  · rw [if_pos hw] at h
    refine ⟨hw.1, hw.2, ?_⟩
    by_contra hc
    refine h (byte_splice_of_outside _ _ ?_)
    rw [LittleEndian.length_bytes]
    omega
  · rw [if_neg hw] at h
    exact absurd rfl h

/-! ## One attempt -/

theorem Cpu.setX_zero (cpu : Cpu) (v : Word) : cpu.setX 0 v = cpu := if_pos rfl

theorem Cpu.setX_x (cpu : Cpu) (r : BitVec 5) (v : Word) :
    (cpu.setX r v).setX r (cpu.x r) = cpu := by
  by_cases hr : r = 0
  · rw [hr, setX_zero, setX_zero]
  · rw [setX, if_neg hr, setX, if_neg hr, x, if_neg hr, Function.update_idem,
      Function.update_eq_self]

theorem put_registerEffect (cpu c : Cpu) (rd : BitVec 5) (v w : Word) :
    (registerEffect cpu rd v).put w c = c.setX rd w := by
  have hiff (k : Fin 32) : (registerEffect cpu rd v).written = true ∧
      (registerEffect cpu rd v).index ≠ 0 ∧ k.val = (registerEffect cpu rd v).index.toNat ↔
        rd ≠ 0 ∧ k = rd.toFin := by
    rw [registerEffect, toNat_setWidth_eight, Fin.ext_iff]
    exact ⟨fun h => ⟨fun h0 => h.2.1 ((setWidth_eight_eq_zero rd).mpr h0), h.2.2⟩,
      fun h => ⟨rfl, fun h0 => h.1 ((setWidth_eight_eq_zero rd).mp h0), h.2⟩⟩
  have hregs : (c.setX rd w).registers =
      fun k => if rd ≠ 0 ∧ k = rd.toFin then w else c.registers k :=
    funext (c.setX_registers rd w)
  simp only [RegisterEffect.put, hiff, ← hregs]
  rw [Cpu.setX]
  split_ifs <;> rfl

theorem put_after_dest (cpu : Cpu) (dest : Option (BitVec 5)) (v : Word) :
    (dest.elim {} fun rd => registerEffect cpu rd v).put
      (dest.elim {} fun rd => registerEffect cpu rd v).after cpu = cpu.writeback dest v := by
  cases dest with
  | none => exact RegisterEffect.put_unwritten rfl _ _
  | some rd =>
    rw [Option.elim, put_registerEffect, Cpu.writeback, Option.elim, registerEffect]
    by_cases hr : rd = 0
    · rw [hr, Cpu.setX_zero, Cpu.setX_zero]
    · rw [if_neg hr]

theorem put_before_dest (cpu : Cpu) (dest : Option (BitVec 5)) (v : Word) :
    (dest.elim {} fun rd => registerEffect cpu rd v).put
      (dest.elim {} fun rd => registerEffect cpu rd v).before (cpu.writeback dest v) = cpu := by
  cases dest with
  | none => exact RegisterEffect.put_unwritten rfl _ _
  | some rd =>
    rw [Option.elim, put_registerEffect, Cpu.writeback, Option.elim]
    exact cpu.setX_x rd v

theorem isWidth_access {i : Instr} {left : Word} {a : Access} (h : i.access left = some a) :
    isWidth a.width := by
  cases i with
  | load o rd rs1 imm =>
    obtain rfl := Option.some.inj h
    exact isWidth_load o
  | store o rs1 rs2 imm =>
    obtain rfl := Option.some.inj h
    exact isWidth_store o
  | _ => nomatch h

theorem bytes_readValue {memory : Memory} {a : Word} {n : ℕ} (hn : isWidth n)
    (h : inRam memory a n = true) :
    LittleEndian.bytes n (readValue memory a n).toNat = slice memory.contents a.toNat n := by
  rw [inRam, Bool.and_eq_true, decide_eq_true_eq] at h
  have hl : (slice memory.contents a.toNat n).length = n :=
    length_slice _ (by rw [Memory.length_contents (memoryReady_isSome h.1)]; exact h.2)
  have hv := LittleEndian.value_lt (slice memory.contents a.toNat n)
  have hb := LittleEndian.bytes_value (slice memory.contents a.toNat n)
  have hlt : 256 ^ n ≤ 2 ^ 32 := by obtain rfl | rfl | rfl := hn <;> decide
  rw [hl] at hv hb
  rw [readValue, BitVec.toNat_ofNat, Nat.mod_eq_of_lt (by omega), hb]

theorem toNat_width {n : ℕ} (hn : isWidth n) : (BitVec.ofNat 8 n).toNat = n := by
  rcases hn with rfl | rfl | rfl <;> rfl

theorem put_after_access {memory : Memory} {right : Word} {a : Access} (hn : isWidth a.width) :
    (completedEffect memory right a).put (completedEffect memory right a).after memory =
      stored memory right a := by
  rw [MemoryEffect.put, stored, completedEffect, toNat_width hn]
  cases a.store <;> rfl

theorem put_before_access {memory : Memory} {right : Word} {a : Access} (hn : isWidth a.width)
    (h : inRam memory a.address a.width = true) :
    (completedEffect memory right a).put (completedEffect memory right a).before
      (stored memory right a) = memory := by
  have hbytes := bytes_readValue hn h
  rw [inRam, Bool.and_eq_true, decide_eq_true_eq] at h
  have hs := memoryReady_isSome h.1
  rw [MemoryEffect.put, stored, completedEffect, toNat_width hn, hbytes]
  cases a.store with
  | false => rfl
  | true =>
    have hl := length_slice memory.contents (by rw [Memory.length_contents hs]; exact h.2)
    refine (if_pos ⟨rfl, rfl⟩).trans ?_
    rw [if_pos rfl, Memory.splice_splice hs (by rw [LittleEndian.length_bytes, hl])
      (by rw [hl]; exact h.2), Memory.splice_slice hs h.2]

theorem memoryReady_of_firstTrap {cpu : Cpu} {memory : Memory}
    (h : firstTrap cpu memory = none) : memoryReady memory = true := by
  have hall := List.find?_eq_none.mp h
  simp only [trapChecks, List.mem_cons, List.not_mem_nil, or_false, forall_eq_or_imp,
    Bool.not_eq_true, Bool.not_eq_false', inRam, Bool.and_eq_true] at hall
  exact hall.2.1.1

theorem retires_of_firstTrap {cpu : Cpu} {memory : Memory} (h : firstTrap cpu memory = none)
    {i : Instr} (hi : instrAt cpu memory = some i) :
    accessible memory.size cpu.programCounter 4 ∧
      i.retires memory.size cpu.programCounter (leftOf cpu memory) (rightOf cpu memory) := by
  obtain ⟨hpc, j, hj, hr⟩ := (firstTrap_eq_none_iff (memoryReady_of_firstTrap h)).mp h
  obtain rfl : i = j := Option.some.inj (hi.symm.trans hj)
  exact ⟨hpc, hr⟩

theorem inRam_of_firstTrap {cpu : Cpu} {memory : Memory} (h : firstTrap cpu memory = none)
    {i : Instr} (hi : instrAt cpu memory = some i) :
    ∀ a ∈ accessOf cpu memory i, inRam memory a.address a.width = true := fun a ha =>
  ((accessible_iff (memoryReady_of_firstTrap h) _ _).mp
    ((retires_of_firstTrap h hi).2.2.2.2 a ha)).2

structure Reversible (cpu : Cpu) (memory : Memory) (a : Attempt) : Prop where
  redo : a.record.redo (cpu, memory) = (a.cpu, a.memory)
  undo : a.record.undo (a.cpu, a.memory) = (cpu, memory)

theorem Unmoved.reversible {cpu : Cpu} {memory : Memory} {a : Attempt} (h : Unmoved cpu memory a)
    (hpc : a.record.pcBefore = cpu.programCounter)
    (hcount : a.record.countBefore = cpu.instructionCount) : Reversible cpu memory a := by
  constructor
  · rw [CpuStepRecord.redo, RegisterEffect.put_unwritten h.unwritten,
      MemoryEffect.put_incomplete h.incomplete, h.samePc, h.sameCount, hpc, hcount, h.sameCpu,
      h.sameMemory]
  · rw [CpuStepRecord.undo, RegisterEffect.put_unwritten h.unwritten,
      MemoryEffect.put_incomplete h.incomplete, hpc, hcount, h.sameCpu, h.sameMemory]

theorem RegisterEffect.put_retire (e : RegisterEffect) (v pc : Word) (cpu : Cpu) :
    e.put v (cpu.retire pc) = (e.put v cpu).retire pc := rfl

theorem Retired.reversible {cpu : Cpu} {memory : Memory} {i : Instr} {a : Attempt}
    (h : Retired cpu memory i a) (hf : firstTrap cpu memory = none)
    (hi : instrAt cpu memory = some i) (hpc : a.record.pcAfter = a.cpu.programCounter)
    (hcount : a.record.countAfter = a.cpu.instructionCount) : Reversible cpu memory a := by
  have hram := inRam_of_firstTrap hf hi
  constructor
  · rw [CpuStepRecord.redo, hpc, hcount, h.reg, h.effect, put_after_dest, h.cpuAfter, h.memoryAfter]
    cases ha : accessOf cpu memory i with
    | none => rfl
    | some b => exact congrArg _ (put_after_access (isWidth_access ha))
  · rw [CpuStepRecord.undo, h.before.1, h.before.2, h.reg, h.effect, h.cpuAfter, h.memoryAfter,
      RegisterEffect.put_retire, put_before_dest]
    cases ha : accessOf cpu memory i with
    | none => rfl
    | some b => exact congrArg _ (put_before_access (isWidth_access ha) (hram b ha))

theorem cpuStepRecorded_reversible (cpu : Cpu) (memory : Memory) :
    Reversible cpu memory (cpuStepRecorded cpu memory) := by
  by_cases hok : (cpuStepRecorded cpu memory).result = .ok
  · obtain ⟨hf, i, hi, hr⟩ := cpuStepRecorded_retired hok
    exact hr.reversible hf hi rfl rfl
  · have hbefore := cpuStepRecorded_before cpu memory
    exact (cpuStepRecorded_unmoved hok).reversible hbefore.1 hbefore.2

theorem Reversible.halted {cpu : Cpu} {memory : Memory} {a : Attempt} (h : Reversible cpu memory a) :
    a.cpu.halted = cpu.halted :=
  (congrArg (fun s : Snapshot => s.1.halted) h.redo).symm

/-! ## Runs -/

def nextRecord (s : Snapshot) : Option (CpuStepRecord × Snapshot) :=
  some ((cpuStepRecorded s.1 s.2).record, ((cpuStepRecorded s.1 s.2).cpu,
    (cpuStepRecorded s.1 s.2).memory))

theorem nextRecord_reversible {s u : Snapshot} {r : CpuStepRecord} (h : nextRecord s = some (r, u)) :
    r.redo s = u ∧ r.undo u = s := by
  obtain ⟨rfl, rfl⟩ := Prod.mk.inj (Option.some.inj h)
  have ha := cpuStepRecorded_reversible s.1 s.2
  exact ⟨ha.redo, ha.undo⟩

/-- What the records of a machine account for: a manual halt is not an attempt. -/
def Machine.snapshot (m : Machine) : Snapshot := ({ m.cpu with halted := false }, m.memory)

theorem machineStep_snapshot {m : Machine} (h : active m) :
    (machineStep m).1.last = (machineAttempt m).record ∧
      (machineStep m).2.snapshot = ((machineAttempt m).cpu, (machineAttempt m).memory) := by
  have hh : (machineAttempt m).cpu.halted = false := (cpuStepRecorded_reversible _ _).halted
  have hcpu : { (machineAttempt m).cpu with halted := false } = (machineAttempt m).cpu := by
    rw [← hh]
  rw [machineStep_eq h]
  split_ifs <;> exact ⟨rfl, Prod.ext hcpu rfl⟩

theorem nextAttempt_reversible {m m' : Machine} {r : CpuStepRecord}
    (h : nextAttempt m = some (r, m')) :
    r.redo m.snapshot = m'.snapshot ∧ r.undo m'.snapshot = m.snapshot := by
  rw [nextAttempt, Option.ite_none_right_eq_some] at h
  obtain ⟨hc, h⟩ := h
  have hactive : active m := by simpa [active] using hc
  obtain ⟨rfl, rfl⟩ := Prod.mk.inj (Option.some.inj h)
  obtain ⟨hlast, hsnapshot⟩ := machineStep_snapshot hactive
  have hresumed : (resumedMachine (machineStep m).2).snapshot = (machineStep m).2.snapshot := rfl
  have ha := cpuStepRecorded_reversible { m.cpu with halted := false } m.memory
  rw [hlast, hresumed, hsnapshot]
  exact ⟨ha.redo, ha.undo⟩

/-- Redoing the first `k` records from the start and undoing the others from the end both give the
state after `k` steps. -/
theorem Run.reconstructed {S : Type} {next : S → Option (CpuStepRecord × S)} (view : S → Snapshot)
    (h : ∀ s r u, next s = some (r, u) → r.redo (view s) = view u ∧ r.undo (view u) = view s)
    {s t : S} {rs : List CpuStepRecord} (hrun : Run next s rs t) (k : ℕ) :
    ∃ u, Run next s (rs.take k) u ∧ Run next u (rs.drop k) t ∧
      (rs.take k).foldl CpuStepRecord.redo (view s) = view u ∧
      (rs.drop k).foldr CpuStepRecord.undo (view t) = view u := by
  obtain ⟨u, h1, h2⟩ := hrun.split k
  exact ⟨u, h1, h2, h1.foldl_redo fun s r u hn => (h s r u hn).1,
    h2.foldr_undo fun s r u hn => (h s r u hn).2⟩

/-- What an attempt changes is named by its record: one register, the bytes of one store, and the
program counter and the count that every record holds. -/
structure Accounts (cpu : Cpu) (memory : Memory) (a : Attempt) : Prop where
  reversible : Reversible cpu memory a
  register : ∀ k, a.cpu.registers k ≠ cpu.registers k →
    a.record.reg.written = true ∧ k ≠ 0 ∧ k.val = a.record.reg.index.toNat
  byte : ∀ i, a.memory.byte i ≠ memory.byte i →
    a.record.memory.completed = true ∧ a.record.memory.write = true ∧
      a.record.memory.address.toNat ≤ i ∧
        i < a.record.memory.address.toNat + a.record.memory.width.toNat
  size : a.memory.size = memory.size
  halted : a.cpu.halted = cpu.halted

/-- The record of every attempt accounts for it; the records of a run of calls, or of a machine that
is advanced in any way, give back every state in between, from either end. -/
theorem records_account_for_steps (cpu : Cpu) (memory : Memory) (m : Machine) :
    Accounts cpu memory (cpuStepRecorded cpu memory) ∧
    (∀ rs t, Run nextRecord (cpu, memory) rs t → ∀ k, ∃ u,
      Run nextRecord (cpu, memory) (rs.take k) u ∧ Run nextRecord u (rs.drop k) t ∧
      (rs.take k).foldl CpuStepRecord.redo (cpu, memory) = u ∧
      (rs.drop k).foldr CpuStepRecord.undo t = u) ∧
    (∀ as k, ∃ u, Run nextAttempt (resumedMachine m) ((recordsAll m as).take k) u ∧
      Run nextAttempt u ((recordsAll m as).drop k) (resumedMachine (applyAll m as)) ∧
      ((recordsAll m as).take k).foldl CpuStepRecord.redo m.snapshot = u.snapshot ∧
      ((recordsAll m as).drop k).foldr CpuStepRecord.undo (applyAll m as).snapshot =
        u.snapshot) := by
  have hr := cpuStepRecorded_reversible cpu memory
  refine ⟨⟨hr, fun k hk => ?_, fun i hi => ?_, cpuStepRecorded_size cpu memory, hr.halted⟩, ?_, ?_⟩
  · exact redo_register (by rwa [hr.redo])
  · exact redo_byte (by rwa [hr.redo])
  · intro rs t hrun k
    exact Run.reconstructed id (fun _ _ _ hn => nextRecord_reversible hn) hrun k
  · intro as k
    exact Run.reconstructed Machine.snapshot (fun _ _ _ hn => nextAttempt_reversible hn)
      (applyAll_run m as).2 k

end Riscv32
