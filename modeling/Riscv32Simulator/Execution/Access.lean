import Riscv32Simulator.Execution.Values
import Riscv32Simulator.Source.MemoryLaws

/-! Register and data accesses of `execute`, with the checks that cannot fail removed. -/

namespace Riscv32
open Splice
open Rv32i (Word LoadOp StoreOp accessible)

/-! ## Registers -/

namespace Cpu

def x (cpu : Cpu) (r : BitVec 5) : Word := if r = 0 then 0 else cpu.registers r.toFin

def setX (cpu : Cpu) (r : BitVec 5) (v : Word) : Cpu :=
  if r = 0 then cpu else { cpu with registers := Function.update cpu.registers r.toFin v }

def writeback (cpu : Cpu) (rd : Option (BitVec 5)) (v : Word) : Cpu :=
  rd.elim cpu fun rd => cpu.setX rd v

def retire (cpu : Cpu) (pc : Word) : Cpu :=
  { cpu with programCounter := pc, instructionCount := cpu.instructionCount + 1 }

@[simp] theorem setX_instructionCount (cpu : Cpu) (r : BitVec 5) (v : Word) :
    (cpu.setX r v).instructionCount = cpu.instructionCount := by rw [setX]; split_ifs <;> rfl

@[simp] theorem setX_halted (cpu : Cpu) (r : BitVec 5) (v : Word) :
    (cpu.setX r v).halted = cpu.halted := by rw [setX]; split_ifs <;> rfl

theorem setX_registers (cpu : Cpu) (r : BitVec 5) (v : Word) (k : Fin 32) :
    (cpu.setX r v).registers k = if r ≠ 0 ∧ k = r.toFin then v else cpu.registers k := by
  unfold setX
  by_cases hr : r = 0
  · rw [if_pos hr, if_neg (fun h => h.1 hr)]
  · rw [if_neg hr]
    simp only [Function.update_apply, hr, ne_eq, not_false_eq_true, true_and]

@[simp] theorem writeback_instructionCount (cpu : Cpu) (rd : Option (BitVec 5)) (v : Word) :
    (cpu.writeback rd v).instructionCount = cpu.instructionCount := by
  cases rd <;> simp [writeback]

@[simp] theorem writeback_halted (cpu : Cpu) (rd : Option (BitVec 5)) (v : Word) :
    (cpu.writeback rd v).halted = cpu.halted := by
  cases rd <;> simp [writeback]

end Cpu

theorem toNat_setWidth_eight (r : BitVec 5) : (r.setWidth 8).toNat = r.toNat := by
  have hr := r.isLt
  rw [BitVec.toNat_setWidth]
  omega

theorem setWidth_eight_eq_zero (r : BitVec 5) : r.setWidth 8 = 0#8 ↔ r = 0 :=
  setWidth_eight_eq_iff (by decide) r 0

theorem toNat_eq_zero (r : BitVec 5) : r.toNat = cpuZeroRegister ↔ r = 0 :=
  BitVec.toNat_inj (y := 0)

theorem cpuReadRegister_eq (cpu : Cpu) (r : BitVec 5) :
    cpuReadRegister cpu r.toNat = some (cpu.x r) := by
  have hr : r.toNat < cpuRegisterCount := r.isLt
  rw [cpuReadRegister, dif_pos hr, Cpu.x]
  simp only [toNat_eq_zero]
  rfl

theorem cpuWriteRegister_eq (cpu : Cpu) (r : BitVec 5) (v : Word) :
    cpuWriteRegister cpu r.toNat v = some (cpu.setX r v) := by
  have hr : r.toNat < cpuRegisterCount := r.isLt
  rw [cpuWriteRegister, dif_pos hr, Cpu.setX]
  simp only [ne_eq, toNat_eq_zero, ite_not]
  rfl

def registerEffect (cpu : Cpu) (rd : BitVec 5) (value : Word) : RegisterEffect where
  written := true
  index := rd.setWidth 8
  value := value
  before := cpu.x rd
  after := if rd = 0 then 0 else value
  changed := cpu.x rd != if rd = 0 then 0 else value

def Operation.dest (o : Operation) (rd : BitVec 5) : Option (BitVec 5) :=
  if o.writesRegister then some rd else none

theorem commit_eq {record : CpuStepRecord} {rd : BitVec 5}
    (hrd : record.instruction.fields.rd = rd.setWidth 8) (cpu : Cpu) (memory : Memory)
    (o : Operation) (nextPc value : Word) : commit cpu memory record o nextPc value =
      { result := .ok
        cpu := (cpu.writeback (o.dest rd) value).retire nextPc
        memory := memory
        record := { record with
          reg := (o.dest rd).elim record.reg fun rd => registerEffect cpu rd value } } := by
  have hx : (if rd = 0 then 0 else cpu.registers (Fin.ofNat 32 rd.toNat)) = cpu.x rd := by
    have hf : Fin.ofNat 32 rd.toNat = rd.toFin := Fin.ext (Nat.mod_eq_of_lt rd.isLt)
    rw [hf, Cpu.x]
  unfold commit Operation.dest
  by_cases hw : o.writesRegister
  · simp only [hrd, if_pos hw, setWidth_eight_eq_zero, toNat_setWidth_eight, cpuWriteRegister_eq, hx]
    rfl
  · simp only [if_neg hw]
    rfl

/-! ## Runs of bytes -/

def Memory.at (m : Memory) : Word → BitVec 8 := fun a => m.byte a.toNat

theorem byte_add {m : Memory} {a : Word} {width k : ℕ} (h : memoryAccessValid m a width = true)
    (hk : k < width) : m.at (a + BitVec.ofNat 32 k) = m.byte (a.toNat + k) := by
  rw [Memory.at, toNat_address_add h hk]

theorem memoryReadU32_eq_wordAt (m : Memory) (a : Word) : memoryReadU32 m a =
    if memoryAccessValid m a 4 then some (Rv32i.wordAt m.at a) else none := by
  rw [memoryReadU32_eq]
  split_ifs with h
  · rw [Rv32i.wordAt, ← byte_add h (by decide : 1 < 4), ← byte_add h (by decide : 2 < 4),
      ← byte_add h (by decide : 3 < 4)]
    rfl
  · rfl

def isWidth (n : ℕ) : Prop := n = 1 ∨ n = 2 ∨ n = 4

def readValue (m : Memory) (a : Word) (n : ℕ) : Word :=
  BitVec.ofNat 32 (LittleEndian.value (slice m.contents a.toNat n))

theorem readValue_one {m : Memory} {a : Word} (h : memoryAccessValid m a 1 = true) :
    readValue m a 1 = (m.at a).setWidth 32 := by
  obtain ⟨hr, -, hb, -⟩ := (memoryAccessValid_iff m a 1).mp h
  rw [readValue, Memory.value_slice_one (memoryReady_isSome hr) hb, BitVec.ofNat_toNat, Memory.at]

theorem readValue_two {m : Memory} {a : Word} (h : memoryAccessValid m a 2 = true) :
    readValue m a 2 = (Rv32i.halfAt m.at a).setWidth 32 := by
  obtain ⟨hr, -, hb, -⟩ := (memoryAccessValid_iff m a 2).mp h
  rw [readValue, Memory.value_slice_two (memoryReady_isSome hr) hb, BitVec.ofNat_toNat,
    ← byte_add h (by decide : 1 < 2)]
  rfl

theorem readValue_four {m : Memory} {a : Word} (h : memoryAccessValid m a 4 = true) :
    readValue m a 4 = Rv32i.wordAt m.at a := by
  obtain ⟨hr, -, hb, -⟩ := (memoryAccessValid_iff m a 4).mp h
  rw [readValue, Memory.value_slice_four (memoryReady_isSome hr) hb, BitVec.ofNat_toNat,
    ← byte_add h (by decide : 1 < 4), ← byte_add h (by decide : 2 < 4),
    ← byte_add h (by decide : 3 < 4)]
  rfl

theorem readWidth_eq (m : Memory) (a : Word) {n : ℕ} (hn : isWidth n) :
    readWidth m a n = if memoryAccessValid m a n then some (readValue m a n) else none := by
  by_cases h : memoryAccessValid m a n = true
  · rw [if_pos h]
    rcases hn with rfl | rfl | rfl
    · rw [readWidth, if_pos rfl, memoryReadU8, memoryByteSize, if_pos h, readValue_one h]
      rfl
    · rw [readWidth, if_neg (by decide), if_pos rfl, memoryReadU16_eq, if_pos h, readValue_two h,
        ← byte_add h (by decide : 1 < 2)]
      rfl
    · rw [readWidth, if_neg (by decide), if_neg (by decide), memoryReadU32_eq_wordAt, if_pos h,
        readValue_four h]
  · rw [if_neg h]
    rcases hn with rfl | rfl | rfl
    · rw [readWidth, if_pos rfl, memoryReadU8, memoryByteSize, if_neg h]
      rfl
    · rw [readWidth, if_neg (by decide), if_pos rfl, memoryReadU16_eq, if_neg h]
      rfl
    · rw [readWidth, if_neg (by decide), if_neg (by decide), memoryReadU32_eq, if_neg h]

def storeValue (v : Word) (n : ℕ) : Word := BitVec.ofNat 32 (v.toNat % 256 ^ n)

theorem storeValue_eq (v : Word) {n : ℕ} (hn : isWidth n) :
    (if n = 1 then (v.setWidth 8).setWidth 32
      else if n = 2 then (v.setWidth 16).setWidth 32 else v) = storeValue v n := by
  have hv := v.isLt
  rcases hn with rfl | rfl | rfl
  · rw [if_pos rfl, storeValue]
    exact BitVec.eq_of_toNat_eq (by simp)
  · rw [if_neg (by decide), if_pos rfl, storeValue]
    exact BitVec.eq_of_toNat_eq (by simp)
  · rw [if_neg (by decide), if_neg (by decide), storeValue]
    exact BitVec.eq_of_toNat_eq (by simp; omega)

theorem bytes_storeValue (v : Word) {n : ℕ} (hn : isWidth n) :
    LittleEndian.bytes n (storeValue v n).toNat = LittleEndian.bytes n v.toNat := by
  have hlt : 256 ^ n ≤ 2 ^ 32 := by obtain rfl | rfl | rfl := hn <;> decide
  have hmod : v.toNat % 256 ^ n < 256 ^ n := Nat.mod_lt _ (by positivity)
  rw [storeValue, BitVec.toNat_ofNat, Nat.mod_eq_of_lt (by omega), LittleEndian.bytes_mod]

theorem writeWidth_eq (m : Memory) (a v : Word) {n : ℕ} (hn : isWidth n) :
    writeWidth m a n v = if memoryAccessValid m a n then
      some (m.splice a.toNat (LittleEndian.bytes n v.toNat)) else none := by
  rcases hn with rfl | rfl | rfl
  · rw [writeWidth, if_pos rfl, memoryWriteU8, memoryByteSize, leBytes_one,
      Memory.setByte_eq_splice]
  · have h8 : (v.setWidth 16).setWidth 8 = v.setWidth 8 := BitVec.setWidth_setWidth_of_le v (by decide)
    have hs : ((v.setWidth 16) >>> 8).setWidth 8 = (v >>> 8).setWidth 8 := by
      apply BitVec.eq_of_toNat_eq
      simp only [BitVec.toNat_setWidth, BitVec.toNat_ushiftRight, Nat.shiftRight_eq_div_pow]
      omega
    rw [writeWidth, if_neg (by decide), if_pos rfl, memoryWriteU16_eq, leBytes_two, h8, hs]
  · rw [writeWidth, if_neg (by decide), if_neg (by decide), memoryWriteU32_eq, leBytes_four]

def loadValue (kind : InstructionKind) (previous : Word) : Word :=
  let value := if kind = .lb ∧ previous &&& 0x80#32 ≠ 0#32 then
    previous ||| 0xFFFFFF00#32 else previous
  if kind = .lh ∧ value &&& 0x8000#32 ≠ 0#32 then value ||| 0xFFFF0000#32 else value

theorem or_upper_eq_signExtend {n : ℕ} (h0 : 0 < n) (hn : n ≤ 32) (v : BitVec n) :
    (if v.setWidth 32 &&& (1#32 <<< (n - 1)) ≠ 0#32 then
      v.setWidth 32 ||| (BitVec.allOnes 32 <<< n) else v.setWidth 32) = v.signExtend 32 := by
  have hbit : (v.setWidth 32).getLsbD (n - 1) = v.msb := by
    rw [BitVec.getLsbD_setWidth, BitVec.msb_eq_getLsbD_last, decide_eq_true (by omega), Bool.true_and]
  simp only [and_bit_ne_zero _ (by omega : n - 1 < 32), hbit]
  cases hm : v.msb with
  | false => rw [if_neg nofun, BitVec.signExtend_eq_setWidth_of_msb_false hm]
  | true =>
    rw [if_pos rfl]
    apply BitVec.eq_of_getLsbD_eq
    intro i hi
    have hhigh : n ≤ i → v.getLsbD i = false := BitVec.getLsbD_of_ge v i
    simp only [BitVec.getLsbD_or, BitVec.getLsbD_setWidth, BitVec.getLsbD_shiftLeft,
      BitVec.getLsbD_allOnes, BitVec.getLsbD_signExtend, hm]
    grind

theorem loadValue_eq (o : LoadOp) {m : Memory} {a : Word}
    (h : memoryAccessValid m a o.width = true) :
    loadValue (loadKind o) (readValue m a o.width) = o.read m.at a := by
  cases o with
  | lb =>
    change loadValue .lb (readValue m a 1) = (m.at a).signExtend 32
    rw [readValue_one h, ← or_upper_eq_signExtend (by decide) (by decide)]
    simp only [loadValue, true_and, reduceCtorEq, false_and, if_false]
    rfl
  | lh =>
    change loadValue .lh (readValue m a 2) = (Rv32i.halfAt m.at a).signExtend 32
    rw [readValue_two h, ← or_upper_eq_signExtend (by decide) (by decide)]
    simp only [loadValue, true_and, reduceCtorEq, false_and, if_false]
    rfl
  | lw => exact readValue_four h
  | lbu => exact readValue_one h
  | lhu => exact readValue_two h

/-! ## The data access -/

/-- The memory part of a record before the access is known to succeed. -/
def memoryEffect (o : Operation) (address : Word) : MemoryEffect where
  attempted := true
  write := o.store
  width := BitVec.ofNat 8 o.width
  address := address

section DataAccess

variable {memory : Memory} {record : CpuStepRecord} {o : Operation} {left address : Word}

theorem access_misaligned (ha : left + record.instruction.immediate = address)
    (h : address.toNat % o.width ≠ 0) (cpu : Cpu) (nextPc right : Word) :
    access cpu memory record o nextPc left right =
      fault cpu memory { record with memory := memoryEffect o address }
        (if o.store then .storeMisaligned else .loadMisaligned)
        (if o.store then .storeMisaligned else .loadMisaligned) address := by
  rw [access, add32_eq, ha]
  exact if_pos h

theorem access_outside (ha : left + record.instruction.immediate = address)
    (hw : isWidth o.width) (h : address.toNat % o.width = 0)
    (hv : memoryAccessValid memory address o.width = false) (cpu : Cpu) (nextPc right : Word) :
    access cpu memory record o nextPc left right =
      fault cpu memory { record with memory := memoryEffect o address }
        (if o.store then .storeFailed else .loadFailed)
        (if o.store then .storeAccess else .loadAccess) address := by
  rw [access, add32_eq, ha]
  simp only [readWidth_eq _ _ hw, hv, if_neg (not_not.mpr h)]
  rfl

theorem access_load (ha : left + record.instruction.immediate = address) (hw : isWidth o.width)
    (hs : o.store = false) (hv : memoryAccessValid memory address o.width = true) (cpu : Cpu)
    (nextPc right : Word) : access cpu memory record o nextPc left right =
      commit cpu memory
        { record with memory :=
          { memoryEffect o address with
            before := readValue memory address o.width
            after := readValue memory address o.width
            completed := true } } o nextPc
        (loadValue record.instruction.kind (readValue memory address o.width)) := by
  have h0 := ((memoryAccessValid_iff _ _ _).mp hv).2.2.2
  have hr := readWidth_eq memory address hw
  rw [if_pos hv] at hr
  rw [access, add32_eq, ha]
  simp only [hr, if_neg (not_not.mpr h0), hs, Bool.false_eq_true, if_false, memoryEffect]
  rfl

theorem access_store (ha : left + record.instruction.immediate = address) (hw : isWidth o.width)
    (hs : o.store = true) (hv : memoryAccessValid memory address o.width = true) (cpu : Cpu)
    (nextPc right : Word) : access cpu memory record o nextPc left right =
      commit cpu
        (memory.splice address.toNat
          (LittleEndian.bytes o.width (storeValue right o.width).toNat))
        { record with memory :=
          { memoryEffect o address with
            before := readValue memory address o.width
            after := storeValue right o.width
            completed := true } } o nextPc (storeValue right o.width) := by
  have h0 := ((memoryAccessValid_iff _ _ _).mp hv).2.2.2
  have hr := readWidth_eq memory address hw
  have hm := writeWidth_eq memory address (storeValue right o.width) hw
  rw [if_pos hv] at hr hm
  rw [access, add32_eq, ha]
  simp only [hr, if_neg (not_not.mpr h0), hs, if_true, storeValue_eq right hw, hm, memoryEffect]

end DataAccess

end Riscv32
