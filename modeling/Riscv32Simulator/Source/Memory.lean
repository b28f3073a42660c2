import Riscv32Simulator.Library.Splice
import Riscv32Simulator.Library.LittleEndian

/-! `memory.c`: owned RAM with checked, aligned, little-endian accesses. Pointer arguments are
values here, so the guards against a null argument have no counterpart. -/

namespace Riscv32
open Splice

def memoryByteSize : ℕ := 1
def memoryHalfwordSize : ℕ := 2
def memoryWordSize : ℕ := 4
def memoryKib : ℕ := 1024
def memoryMib : ℕ := 1024 * memoryKib
def memoryMaxSize : ℕ := 256 * memoryMib

/-- `bytes` is null or an allocation of `size` bytes. -/
structure Memory where
  bytes : Option (List (BitVec 8))
  size : ℕ
  length_bytes : ∀ b ∈ bytes, b.length = size
deriving DecidableEq

namespace Memory

/-- The zero-initialized owner `(Memory){0}`. -/
def empty : Memory := ⟨none, 0, by simp⟩

def zeroed (size : ℕ) : Memory := ⟨some (List.replicate size 0), size, by simp⟩

def contents (m : Memory) : List (BitVec 8) := m.bytes.getD []

/-- The unchecked `memory->bytes[i]`. -/
def byte (m : Memory) (i : ℕ) : BitVec 8 := m.contents.getD i 0

/-- The unchecked `memory->bytes[i] = value`. -/
def setByte (m : Memory) (i : ℕ) (value : BitVec 8) : Memory where
  bytes := m.bytes.map (·.set i value)
  size := m.size
  length_bytes := by
    intro b hb
    obtain ⟨c, hc, rfl⟩ := Option.map_eq_some_iff.mp hb
    rw [List.length_set, m.length_bytes c hc]

/-- `memcpy` of `ys` to `memory->bytes + a`. -/
def splice (m : Memory) (a : ℕ) (ys : List (BitVec 8)) : Memory where
  bytes := m.bytes.map (overwrite · a ys)
  size := m.size
  length_bytes := by
    intro b hb
    obtain ⟨c, hc, rfl⟩ := Option.map_eq_some_iff.mp hb
    rw [length_overwrite, m.length_bytes c hc]

end Memory

def memorySizeValid (size : ℕ) : Bool :=
  memoryWordSize ≤ size && size ≤ memoryMaxSize && size % memoryWordSize == 0

def memoryReady (memory : Memory) : Bool := memory.bytes.isSome && memorySizeValid memory.size

def memoryAccessValid (memory : Memory) (address : BitVec 32) (width : ℕ) : Bool :=
  memoryReady memory && 0 < width && width ≤ memory.size
    && address.toNat ≤ memory.size - width && address.toNat % width == 0

/-- `calloc` tells whether the host grants the allocation. -/
def memoryInit (memory : Memory) (size : ℕ) (calloc : Bool) : Option Memory :=
  if memory.bytes.isSome || memory.size != 0 || !memorySizeValid size then none
  else if calloc then some (Memory.zeroed size) else none

def memoryCopy (source destination : Memory) : Option Memory :=
  if !memoryReady source || !memoryReady destination || source.size != destination.size then none
  else some (destination.splice 0 source.contents)

/-- The destination is a different object than the source. -/
def memoryClone (source destination : Memory) (calloc : Bool) : Option Memory :=
  if !memoryReady source || (if destination.bytes.isNone then destination.size != 0
      else !memoryReady destination) then none
  else (memoryInit Memory.empty source.size calloc).map (·.splice 0 source.contents)

def memoryReadU8 (memory : Memory) (address : BitVec 32) : Option (BitVec 8) :=
  if memoryAccessValid memory address memoryByteSize then some (memory.byte address.toNat) else none

def memoryWriteU8 (memory : Memory) (address : BitVec 32) (value : BitVec 8) : Option Memory :=
  if memoryAccessValid memory address memoryByteSize then
    some (memory.setByte address.toNat value)
  else none

def memoryReadU16 (memory : Memory) (address : BitVec 32) : Option (BitVec 16) :=
  if memoryAccessValid memory address memoryHalfwordSize then
    some (((memory.byte address.toNat).setWidth 32 |||
      (memory.byte (address + 1#32).toNat).setWidth 32 <<< 8).setWidth 16)
  else none

def memoryWriteU16 (memory : Memory) (address : BitVec 32) (value : BitVec 16) : Option Memory :=
  if memoryAccessValid memory address memoryHalfwordSize then
    some ((memory.setByte address.toNat (value.setWidth 8)).setByte
      (address + 1#32).toNat ((value >>> 8).setWidth 8))
  else none

def memoryReadU32 (memory : Memory) (address : BitVec 32) : Option (BitVec 32) :=
  if memoryAccessValid memory address memoryWordSize then
    some ((memory.byte address.toNat).setWidth 32 |||
      (memory.byte (address + 1#32).toNat).setWidth 32 <<< 8 |||
      (memory.byte (address + 2#32).toNat).setWidth 32 <<< 16 |||
      (memory.byte (address + 3#32).toNat).setWidth 32 <<< 24)
  else none

def memoryWriteU32 (memory : Memory) (address : BitVec 32) (value : BitVec 32) : Option Memory :=
  if memoryAccessValid memory address memoryWordSize then
    some ((((memory.setByte address.toNat (value.setWidth 8)).setByte
      (address + 1#32).toNat ((value >>> 8).setWidth 8)).setByte
      (address + 2#32).toNat ((value >>> 16).setWidth 8)).setByte
      (address + 3#32).toNat ((value >>> 24).setWidth 8))
  else none

end Riscv32
