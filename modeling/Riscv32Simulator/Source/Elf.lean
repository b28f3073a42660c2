import Riscv32Simulator.Source.ProgramIo

/-! `program_elf.c`: ELF32 executables. The file is read by checked index, pointers into it are
indices, and `size_t` is wide enough for every sum of them. -/

namespace Riscv32
open Checked

def elfHeaderSize : ℕ := 52
def elfPhSize : ℕ := 32
def elfShSize : ℕ := 40
def elfFileLimit : ℕ := 64 * memoryMib
def elfMaxSegments : ℕ := 1024

section File

variable (file : List (BitVec 8))

def byteAt (p : ℕ) : Loading (BitVec 8) := readAt file p

def u16 (p : ℕ) : Loading (BitVec 16) := do
  let b0 ← byteAt file p
  let b1 ← byteAt file (p + 1)
  return b0.setWidth 16 ||| b1.setWidth 16 <<< 8

def u32 (p : ℕ) : Loading (BitVec 32) := do
  let b0 ← byteAt file p
  let b1 ← byteAt file (p + 1)
  let b2 ← byteAt file (p + 2)
  let b3 ← byteAt file (p + 3)
  return b0.setWidth 32 ||| b1.setWidth 32 <<< 8 ||| b2.setWidth 32 <<< 16 ||| b3.setWidth 32 <<< 24

def range (offset length size : ℕ) : Bool := offset ≤ size && length ≤ size - offset

/-! ## The C library on the file -/

/-- The first null byte among the `n` bytes from `p` on. -/
def memchrNul (p : ℕ) : ℕ → Loading (Option ℕ)
  | 0 => return none
  | n + 1 => do
    if (← byteAt file p) = 0 then return some p
    memchrNul (p + 1) n

/-- `strcmp(p, text) == 0`, for a text without its null byte. -/
def strcmpEq (p : ℕ) : List (BitVec 8) → Loading Bool
  | [] => return (← byteAt file p) = 0
  | c :: text => do
    if (← byteAt file p) ≠ c then return false
    strcmpEq (p + 1) text

def memcmpEq (p : ℕ) : List (BitVec 8) → Loading Bool
  | [] => return true
  | c :: text => do
    let b ← byteAt file p
    return b = c && (← memcmpEq (p + 1) text)

/-! ## Attributes -/

/-- The loop of `uleb` over the shifts that are left: the cursor after the number and the number. -/
def ulebFrom (fin : ℕ) : (shifts : List ℕ) → (cursor : ℕ) → (result : BitVec 32) →
    Loading (Option (ℕ × BitVec 32))
  | [], _, _ => return none
  | shift :: shifts, cursor, result =>
    if cursor < fin then do
      let byte ← byteAt file cursor
      if shift = 28 ∧ byte &&& 0xF0#8 ≠ 0 then return none
      let result := result ||| (byte &&& 127#8).setWidth 32 <<< shift
      if byte &&& 128#8 = 0 then return some (cursor + 1, result)
      ulebFrom fin shifts (cursor + 1) result
    else return none

def uleb (cursor fin : ℕ) : Loading (Option (ℕ × BitVec 32)) :=
  ulebFrom file fin [0, 7, 14, 21, 28] cursor 0

def malformed {α : Type} : Loading α := .error (.reported ⟨0, "malformed RISC-V attributes"⟩)

def orMalformed {α : Type} : Option α → Loading α
  | some a => return a
  | none => malformed

/-- `riscv`. -/
def vendorRiscv : List (BitVec 8) := [0x72#8, 0x69#8, 0x73#8, 0x63#8, 0x76#8]

/-- `rv32i`, with or without its version. -/
def archRv32i : List (BitVec 8) := [0x72#8, 0x76#8, 0x33#8, 0x32#8, 0x69#8]
def archRv32i2p0 : List (BitVec 8) := archRv32i ++ [0x32#8, 0x70#8, 0x30#8]
def archRv32i2p1 : List (BitVec 8) := archRv32i ++ [0x32#8, 0x70#8, 0x31#8]

def archSupported (text : ℕ) : Loading Bool := do
  if ← strcmpEq file text archRv32i2p1 then return true
  if ← strcmpEq file text archRv32i2p0 then return true
  strcmpEq file text archRv32i

def attributeTurn (subend p : ℕ) : Loading (ℕ ⊕ ℕ) :=
  if p < subend then do
    let (p, tag) ← uleb file p subend >>= orMalformed
    if tag &&& 1#32 ≠ 0 then
      let text := p
      let p ← memchrNul file p (subend - p) >>= orMalformed
      if tag = 5#32 then
        reject (!(← archSupported file text)) "ELF architecture requires instructions beyond RV32I"
      return .inl (p + 1)
    else
      let (p, value) ← uleb file p subend >>= orMalformed
      reject (tag = 4#32 ∧ value ≠ 16#32) "ELF requires an unsupported stack alignment"
      reject (tag = 6#32 ∧ value ≠ 0#32) "ELF declares unaligned memory accesses"
      return .inl p
  else return .inr p

/-- One subsection of the RISC-V vendor section that ends at `fin`. -/
def subsectionTurn (fin p : ℕ) : Loading (ℕ ⊕ Unit) :=
  if p < fin then do
    let start := p
    let (p, scope) ← uleb file p fin >>= orMalformed
    if fin - p < 4 then malformed else
    let subsize ← u32 file p
    let p := p + 4
    if subsize.toNat < p - start ∨ subsize.toNat > fin - start then malformed else
    let subend := start + subsize.toNat
    reject (scope ≠ 1#32) "unsupported RISC-V attribute scope"
    let p ← loop (attributeTurn file subend) (file.length + 1) p
    return .inl p
  else return .inr ()

/-- One vendor section of the `size` bytes of attributes at `data`. -/
def vendorTurn (data size offset : ℕ) : Loading (ℕ ⊕ Unit) :=
  if offset < size then do
    if !range offset 4 size then malformed else
    let length ← u32 file (data + offset)
    if length.toNat < 5 ∨ !range offset length.toNat size then malformed else
    let fin := data + offset + length.toNat
    let vendor := data + offset + 4
    let nul ← memchrNul file vendor (fin - vendor) >>= orMalformed
    if ← strcmpEq file vendor vendorRiscv then
      loop (subsectionTurn file fin) (file.length + 1) (nul + 1)
    return .inl (offset + length.toNat)
  else return .inr ()

def attributes (data size : ℕ) : Loading Unit := do
  reject (size < 1) "invalid RISC-V attributes"
  reject ((← byteAt file data) ≠ 0x41#8) "invalid RISC-V attributes"
  loop (vendorTurn file data size) (file.length + 1) 1

/-! ## Sections -/

def sectionTurn (offset i : ℕ) : Loading Unit := do
  let shdr := offset + i * elfShSize
  let type ← u32 file (shdr + 4)
  let start ← u32 file (shdr + 16)
  let length ← u32 file (shdr + 20)
  reject ((← u32 file (shdr + 8)) &&& 0x400#32 ≠ 0) "ELF thread-local storage is unsupported"
  reject (type ≠ 8#32 ∧ !range start.toNat length.toNat file.length) "ELF section exceeds the file"
  if type = 0x70000003#32 then attributes file start.toNat length.toNat

def validateSections : Loading Unit := do
  let offset ← u32 file 32
  let count ← u16 file 48
  let names ← u16 file 50
  if count = 0 ∧ offset = 0 ∧ names = 0 then return ()
  reject (count = 0) "invalid or unsupported ELF section table"
  reject ((← u16 file 46).toNat ≠ elfShSize) "invalid or unsupported ELF section table"
  reject (!range offset.toNat (count.toNat * elfShSize) file.length ∨ names ≥ count)
    "invalid or unsupported ELF section table"
  (List.range count.toNat).foldlM (fun _ i => sectionTurn file offset.toNat i) ()

/-! ## Segments -/

structure SegmentScan where
  lowest : ℕ
  highest : ℕ := 0
  executableEntry : Bool := false
deriving DecidableEq, Repr

def overlapTurn (table : ℕ) (address memsz : BitVec 32) (j : ℕ) : Loading Unit := do
  let prior := table + j * elfPhSize
  let a ← u32 file (prior + 8)
  let n ← u32 file (prior + 20)
  let type ← u32 file prior
  reject (type = 1#32 ∧ n ≠ 0 ∧ address.toNat < a.toNat + n.toNat
    ∧ a.toNat < address.toNat + memsz.toNat) "overlapping ELF load segments"

def scanTurn (ramSize table : ℕ) (entry : BitVec 32) (scan : SegmentScan) (i : ℕ) :
    Loading SegmentScan := do
  let ph := table + i * elfPhSize
  let type ← u32 file ph
  reject (type = 2#32 ∨ type = 3#32 ∨ type = 7#32)
    "dynamic linking, interpreters, and TLS are unsupported"
  if type ≠ 1#32 then return scan
  let offset ← u32 file (ph + 4)
  let address ← u32 file (ph + 8)
  let physical ← u32 file (ph + 12)
  let filesz ← u32 file (ph + 16)
  let memsz ← u32 file (ph + 20)
  let flags ← u32 file (ph + 24)
  let align ← u32 file (ph + 28)
  reject (filesz > memsz ∨ !range offset.toNat filesz.toNat file.length)
    "ELF segment exceeds file or memory size"
  reject (physical ≠ address) "ELF requires different physical and virtual addresses"
  reject (align > 1#32 ∧ (align &&& (align - 1#32) ≠ 0 ∨ address % align ≠ offset % align))
    "invalid ELF segment alignment"
  reject (!range address.toNat memsz.toNat ramSize) "ELF segment does not fit in configured RAM"
  if memsz = 0 then return scan
  (List.range i).foldlM (fun _ j => overlapTurn file table address memsz j) ()
  return {
    lowest := if address.toNat < scan.lowest then address.toNat else scan.lowest
    highest := if address.toNat + memsz.toNat > scan.highest then address.toNat + memsz.toNat
      else scan.highest
    executableEntry := scan.executableEntry || (flags &&& 1#32 ≠ 0 ∧ filesz ≥ 4#32
      ∧ entry ≥ address ∧ entry - address ≤ filesz - 4#32 ∧ entry.toNat % 4 = 0) }

def copyTurn (table : ℕ) (memory : Memory) (i : ℕ) : Loading Memory := do
  let ph := table + i * elfPhSize
  if (← u32 file ph) ≠ 1#32 then return memory
  let filesz ← u32 file (ph + 16)
  if filesz = 0 then return memory
  let address ← u32 file (ph + 8)
  let offset ← u32 file (ph + 4)
  memcpyFrom file memory address.toNat offset.toNat filesz.toNat

/-- `calloc` tells whether the host grants the RAM. -/
def loadElf (ramSize : ℕ) (calloc : Bool) : Loading Program := do
  reject (file.length < elfHeaderSize) "not an ELF file or truncated ELF header"
  reject (!(← memcmpEq file 0 [0x7F#8, 0x45#8, 0x4C#8, 0x46#8]))
    "not an ELF file or truncated ELF header"
  reject ((← byteAt file 4) ≠ 1 ∨ (← byteAt file 5) ≠ 1 ∨ (← byteAt file 6) ≠ 1
    ∨ (← u16 file 16) ≠ 2#16 ∨ (← u16 file 18) ≠ 243#16 ∨ (← u32 file 20) ≠ 1#32)
    "expected ELF32 little-endian RISC-V static executable"
  reject ((← u32 file 36) ≠ 0)
    "ELF flags require an ABI or extension beyond RV32I/ILP32"
  reject ((← u16 file 40).toNat ≠ elfHeaderSize ∨ (← u16 file 42).toNat ≠ elfPhSize)
    "invalid ELF header sizes"
  let table ← u32 file 28
  let entry ← u32 file 24
  let count ← u16 file 44
  reject (count = 0 ∨ count.toNat > elfMaxSegments
    ∨ !range table.toNat (count.toNat * elfPhSize) file.length)
    "invalid ELF program header table"
  validateSections file
  let scan ← (List.range count.toNat).foldlM (scanTurn file ramSize table.toNat entry)
    { lowest := ramSize }
  reject (!scan.executableEntry ∨ scan.lowest ≥ scan.highest)
    "ELF entry must address an aligned file-backed executable instruction"
  match memoryInit Memory.empty ramSize calloc with
  | none => .error (.reported ⟨0, "cannot allocate program RAM"⟩)
  | some memory =>
    let memory ← (List.range count.toNat).foldlM (copyTurn file table.toNat) memory
    return {
      memory := memory
      loadAddress := BitVec.ofNat 32 scan.lowest
      entry := entry
      imageSize := scan.highest - scan.lowest
      format := .elf
      elfData := some file
      elfSize := file.length }

end File

/-- `malloc` and `calloc` tell which file buffers and whether the RAM are granted. -/
def programReadElf (input : Input) (ramSize : ℕ) (malloc : ℕ → Bool) (calloc : Bool) :
    Loading Program := do
  reject (!memorySizeValid ramSize) "invalid RAM size"
  let file ← programInputBytes input elfFileLimit malloc
  loadElf file ramSize calloc

end Riscv32
