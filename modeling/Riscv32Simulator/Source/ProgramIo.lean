import Riscv32Simulator.Library.Checked
import Riscv32Simulator.Source.Program

/-! `program_io.c`: input streams, whole files in memory, and the address check. -/

namespace Riscv32
open Checked

/-- A stream: the bytes to come, and whether reading past them is an error or the end of file. -/
structure Input where
  rest : List (BitVec 8)
  failing : Bool := false
deriving DecidableEq, Repr

def programAddressValid (ramSize : ℕ) (loadAddress entry : BitVec 32) : Except ProgramError Unit :=
  if !memorySizeValid ramSize then .error ⟨0, "invalid RAM size"⟩
  else if loadAddress.toNat % memoryWordSize ≠ 0 ∨ loadAddress.toNat > ramSize - memoryWordSize then
    .error ⟨0, "load address must be aligned and inside RAM"⟩
  else if entry.toNat % memoryWordSize ≠ 0 ∨ entry < loadAddress
      ∨ entry.toNat > ramSize - memoryWordSize then
    .error ⟨0, "entry must be aligned and inside the loaded program"⟩
  else .ok ()

/-- The loader's computations; the errors they report carry no line unless they name one. -/
abbrev Loading (α : Type) := Except (Stop ProgramError) α

def reject (c : Prop) [Decidable c] (message : String) : Loading Unit := rejectIf c ⟨0, message⟩

/-! ## Whole files -/

structure FileBuffer where
  capacity : ℕ
  bytes : List (BitVec 8) := []
  input : Input

/-- One turn of the loop of `program_input_bytes`. A short read has met the end of the stream, so
the turn that would go on reading without growing the buffer does not arise. -/
def inputBytesTurn (limit : ℕ) (malloc : ℕ → Bool) (b : FileBuffer) :
    Loading (FileBuffer ⊕ List (BitVec 8)) := do
  let room := b.capacity - b.bytes.length
  let got := b.input.rest.take room
  let bytes := b.bytes ++ got
  if got.length < room then
    reject b.input.failing "input read error"
    return .inr bytes
  else
    match b.input.rest.drop room with
    | [] =>
      reject b.input.failing "input read error"
      return .inr bytes
    | byte :: rest =>
      reject (b.capacity = limit) "input exceeds size limit or available RAM"
      let next := if b.capacity > limit / 2 then limit else b.capacity * 2
      reject (!malloc next) "cannot grow file buffer"
      return .inl { capacity := next, bytes := bytes ++ [byte], input := { b.input with rest := rest } }

/-- `malloc` tells for each size whether the host grants it. -/
def programInputBytes (input : Input) (limit : ℕ) (malloc : ℕ → Bool) :
    Loading (List (BitVec 8)) := do
  let capacity := if limit < 4096 then limit else 4096
  reject (!malloc capacity) "cannot allocate file buffer"
  loop (inputBytesTurn limit malloc) (input.rest.length + 1) { capacity := capacity, input := input }

/-! ## Raw binaries -/

/-- `memcpy` of `n` bytes of a buffer to RAM. -/
def memcpyFrom (buffer : List (BitVec 8)) (memory : Memory) (dest source : ℕ) : ℕ → Loading Memory
  | 0 => return memory
  | n + 1 => do
    let b ← readAt buffer source
    if dest < memory.contents.length then
      memcpyFrom buffer (memory.setByte dest b) (dest + 1) (source + 1) n
    else .error .outside

/-- `malloc` and `calloc` tell which file buffers and whether the RAM are granted. -/
def programReadBinary (input : Input) (ramSize : ℕ) (loadAddress entry : BitVec 32)
    (malloc : ℕ → Bool) (calloc : Bool) : Loading Program :=
  match programAddressValid ramSize loadAddress entry with
  | .error e => .error (.reported e)
  | .ok () => do
    let bytes ← programInputBytes input (ramSize - loadAddress.toNat) malloc
    let size := bytes.length
    reject (size < memoryWordSize ∨ (entry - loadAddress).toNat > size - memoryWordSize)
      "entry must address a complete instruction in the binary"
    match memoryInit Memory.empty ramSize calloc with
    | none => .error (.reported ⟨0, "cannot allocate program RAM"⟩)
    | some memory =>
      let memory ← memcpyFrom bytes memory loadAddress.toNat 0 size
      return {
        memory := memory
        loadAddress := loadAddress
        entry := entry
        imageSize := size
        format := .binary }

end Riscv32
