import Riscv32Simulator.Execution.Outcome

/-! One attempt over two RAMs: it goes on alike when it reads alike. -/

namespace Riscv32
open Rv32i (Instr Word)

def CpuStepRecord.withBefore (r : CpuStepRecord) (before : Word) : CpuStepRecord :=
  { r with memory := { r.memory with before := before } }

/-- Records that differ at most in the value that a store overwrote, or not at all. -/
structure SameBut (strict : Prop) (r r' : CpuStepRecord) : Prop where
  same : r' = r.withBefore r'.memory.before
  before : strict ∨ r.memory.write = false → r'.memory.before = r.memory.before

theorem SameBut.refl (strict : Prop) (r : CpuStepRecord) : SameBut strict r r := ⟨rfl, fun _ => rfl⟩

theorem SameBut.eq {r r' : CpuStepRecord} (h : SameBut True r r') : r' = r := by
  rw [h.same, h.before (.inl trivial)]
  rfl

/-- Two attempts of one CPU whose RAMs stay related. -/
structure Lockstep (R : Memory → Memory → Prop) (strict : Prop) (a b : Attempt) : Prop where
  result : b.result = a.result
  cpu : b.cpu = a.cpu
  memory : R a.memory b.memory
  record : SameBut strict a.record b.record

structure Serves (R : Memory → Memory → Prop) (strict : Prop) (memory memory' : Memory) (store : Bool)
    (a : Word) (width : ℕ) : Prop where
  valid : memoryAccessValid memory' a width = memoryAccessValid memory a width
  value : memoryAccessValid memory a width = true → strict ∨ store = false →
    readValue memory' a width = readValue memory a width
  splice : memoryAccessValid memory a width = true → ∀ ys, ys.length = width →
    R (memory.splice a.toNat ys) (memory'.splice a.toNat ys)

def Made (memory : Memory) (r : CpuStepRecord) (store : Bool) (a : Word) (width : ℕ) : Prop :=
  if memoryAccessValid memory a width then
    r.memory.completed = true ∧ r.memory.write = store ∧ r.memory.address = a ∧
      r.memory.width = BitVec.ofNat 8 width
  else r.trap.raised = true ∧ r.trap.cause = if store then .storeAccess else .loadAccess

section Stages

variable {R : Memory → Memory → Prop} {strict : Prop} {cpu : Cpu} {memory memory' : Memory}
  {record : CpuStepRecord} {o : Operation} {left nextPc : Word}

theorem fault_lockstep (h : R memory memory') (result : CpuStepResult) (cause : CpuTrapCause)
    (value : Word) : Lockstep R strict (fault cpu memory record result cause value)
      (fault cpu memory' record result cause value) :=
  ⟨rfl, rfl, h, .refl ..⟩

theorem commit_record (cpu : Cpu) (memory : Memory) (record : CpuStepRecord) (o : Operation)
    (nextPc value : Word) : ∃ reg, (commit cpu memory record o nextPc value).record =
      { record with reg := reg } := by
  rw [commit]
  split
  · cases cpuWriteRegister cpu record.instruction.fields.rd.toNat value <;> exact ⟨_, rfl⟩
  · exact ⟨_, rfl⟩

theorem commit_lockstep (h : R memory memory') {before : Word}
    (hb : strict ∨ record.memory.write = false → before = record.memory.before) (value : Word) :
    Lockstep R strict (commit cpu memory record o nextPc value)
      (commit cpu memory' (record.withBefore before) o nextPc value) := by
  have hrd : (record.withBefore before).instruction = record.instruction := rfl
  rw [commit, commit, hrd]
  split
  · cases cpuWriteRegister cpu record.instruction.fields.rd.toNat value <;>
      exact ⟨rfl, rfl, h, rfl, hb⟩
  · exact ⟨rfl, rfl, h, rfl, hb⟩

theorem access_made (hw : isWidth o.width)
    (ha : misaligned (left + record.instruction.immediate) o.width = false) (right : Word) :
    Made memory (access cpu memory record o nextPc left right).record o.store
      (left + record.instruction.immediate) o.width := by
  unfold Made
  by_cases hv : memoryAccessValid memory (left + record.instruction.immediate) o.width = true
  · rw [if_pos hv]
    cases hs : o.store with
    | false =>
      rw [access_load rfl hw hs hv]
      obtain ⟨reg, hreg⟩ := commit_record cpu memory _ o nextPc _
      rw [hreg]
      exact ⟨rfl, hs, rfl, rfl⟩
    | true =>
      rw [access_store rfl hw hs hv]
      obtain ⟨reg, hreg⟩ := commit_record cpu _ _ o nextPc _
      rw [hreg]
      exact ⟨rfl, hs, rfl, rfl⟩
  · rw [if_neg hv,
      access_outside rfl hw (misaligned_eq_false.mp ha) (Bool.eq_false_iff.mpr hv)]
    exact ⟨rfl, rfl⟩

theorem access_lockstep (h : R memory memory') (hw : isWidth o.width)
    (hs : misaligned (left + record.instruction.immediate) o.width = false →
      Serves R strict memory memory' o.store (left + record.instruction.immediate) o.width)
    (right : Word) : Lockstep R strict (access cpu memory record o nextPc left right)
      (access cpu memory' record o nextPc left right) := by
  cases ha : misaligned (left + record.instruction.immediate) o.width with
  | true =>
    rw [access_misaligned rfl (misaligned_eq_true.mp ha),
      access_misaligned rfl (misaligned_eq_true.mp ha)]
    exact fault_lockstep h ..
  | false =>
    have h0 := misaligned_eq_false.mp ha
    obtain ⟨hvalid, hvalue, hsplice⟩ := hs ha
    cases hv : memoryAccessValid memory (left + record.instruction.immediate) o.width with
    | false =>
      rw [access_outside rfl hw h0 hv, access_outside rfl hw h0 (hvalid.trans hv)]
      exact fault_lockstep h ..
    | true =>
      cases hst : o.store with
      | false =>
        rw [access_load rfl hw hst hv, access_load rfl hw hst (hvalid.trans hv),
          hvalue hv (.inr hst)]
        exact commit_lockstep h (fun _ => rfl) _
      | true =>
        rw [access_store rfl hw hst hv, access_store rfl hw hst (hvalid.trans hv)]
        -- the value that a store replaces is the only thing that may differ
        refine commit_lockstep (hsplice hv _ (LittleEndian.length_bytes ..)) (fun hb => ?_) _
        refine hvalue hv (hb.imp_right fun hwrite => ?_)
        exact absurd (hwrite.symm.trans hst) Bool.false_ne_true

theorem finish_lockstep {i : Instr} (h : R memory memory')
    (hword : wordAtPc cpu memory' = wordAtPc cpu memory) (hi : instrAt cpu memory = some i)
    (hs : ∀ store a width, isWidth width → misaligned a width = false →
      Made memory (finish cpu memory (decodedRecord cpu memory record) i).record store a width →
      Serves R strict memory memory' store a width) :
    Lockstep R strict (finish cpu memory (decodedRecord cpu memory record) i)
      (finish cpu memory' (decodedRecord cpu memory record) i) := by
  have hleft : leftOf cpu memory' = leftOf cpu memory := by rw [leftOf, leftOf, hword]
  have hright : rightOf cpu memory' = rightOf cpu memory := by rw [rightOf, rightOf, hword]
  rw [finish, finish, hleft, hright]
  unfold finish at hs
  cases ho : operationOf cpu.programCounter (leftOf cpu memory) (rightOf cpu memory) i with
  | error e => exact fault_lockstep h ..
  | ok o =>
    rw [ho] at hs
    dsimp only at hs ⊢
    generalize (if formatOf i = .b ∧ o.transfer then cpu.programCounter + immediateOf i
      else o.nextPc) = nextPc at hs ⊢
    split_ifs with ht hw
    · exact fault_lockstep h ..
    · rw [if_neg ht, if_pos hw] at hs
      obtain ⟨hwidth, -⟩ := (operationOf_describes hi ho memory).access hw
      exact access_lockstep h hwidth (fun ha => hs _ _ _ hwidth ha (access_made hwidth ha _)) _
    · exact commit_lockstep h (fun _ => rfl) _

theorem execute_lockstep (hh : cpu.halted = false) (h : R memory memory')
    (hf : misaligned cpu.programCounter 4 = false →
      Serves R strict memory memory' false cpu.programCounter 4)
    (hs : ∀ store a width, isWidth width → misaligned a width = false →
      Made memory (execute cpu memory record).record store a width →
      Serves R strict memory memory' store a width) :
    Lockstep R strict (execute cpu memory record) (execute cpu memory' record) := by
  cases hpc : misaligned cpu.programCounter 4 with
  | true =>
    rw [execute_misaligned hh hpc, execute_misaligned hh hpc]
    exact fault_lockstep h ..
  | false =>
    have hvalid := (hf hpc).valid
    rw [memoryAccessValid_eq memory (by decide) hpc, memoryAccessValid_eq memory' (by decide) hpc]
      at hvalid
    cases hram : inRam memory cpu.programCounter 4 with
    | false =>
      rw [execute_fetch hh hpc hram, execute_fetch hh hpc (hvalid.trans hram)]
      exact fault_lockstep h ..
    | true =>
      have hv : memoryAccessValid memory cpu.programCounter 4 = true := by
        rw [memoryAccessValid_eq memory (by decide) hpc, hram]
      -- equal fetches decode alike, and from there on only the access can differ
      have hw : wordAtPc cpu memory' = wordAtPc cpu memory := by
        rw [wordAtPc, wordAtPc, ← readValue_four hv, ← readValue_four ((hf hpc).valid.trans hv)]
        exact (hf hpc).value hv (.inr rfl)
      have hrecord : decodedRecord cpu memory' record = decodedRecord cpu memory record := by
        rw [decodedRecord, decodedRecord, leftOf, rightOf, leftOf, rightOf, hw]
      have hinstr : instrAt cpu memory' = instrAt cpu memory := by rw [instrAt, instrAt, hw]
      rw [execute_decode hh hpc hram] at hs ⊢
      rw [execute_decode hh hpc (hvalid.trans hram), hrecord, hinstr, hw]
      cases hi : instrAt cpu memory with
      | none => exact fault_lockstep h ..
      | some i =>
        rw [hi] at hs
        exact finish_lockstep h hw hi hs

/-- What its fetch and its data access find is all that an attempt takes from the RAM. -/
theorem cpuStepRecorded_lockstep (hh : cpu.halted = false) (h : R memory memory')
    (hf : misaligned cpu.programCounter 4 = false →
      Serves R strict memory memory' false cpu.programCounter 4)
    (hs : ∀ store a width, isWidth width → misaligned a width = false →
      Made memory (cpuStepRecorded cpu memory).record store a width →
      Serves R strict memory memory' store a width) :
    Lockstep R strict (cpuStepRecorded cpu memory) (cpuStepRecorded cpu memory') := by
  obtain ⟨hresult, hcpu, hmemory, hsame, hbefore⟩ := execute_lockstep hh h hf hs
  refine ⟨hresult, hcpu, hmemory, ?_, hbefore⟩
  rw [cpuStepRecorded, cpuStepRecorded, hresult, hcpu, hsame]
  rfl

end Stages

end Riscv32
