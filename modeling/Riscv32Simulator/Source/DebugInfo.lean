import Riscv32Simulator.Library.Search
import Riscv32Simulator.Source.Program

/-! `debug_info.c`: source lines and symbols of an ELF, read through libelf and libdw. What those
libraries answer is data here, `none` where the call fails or answers null. -/

namespace Riscv32
open Search

def maxDebugRecords : ℕ := 262144
def maxSourceFiles : ℕ := 4096
def maxDebugText : ℕ := 4096

/-- A C string without its null byte. -/
abbrev CText := List (BitVec 8)

structure DebugLine where
  beginAddress : BitVec 32 := 0
  endAddress : BitVec 32 := 0
  maximumEnd : BitVec 32 := 0
  file : ℕ := 0
  line : BitVec 32 := 0
  column : BitVec 32 := 0
deriving DecidableEq, Repr

structure DebugSymbol where
  name : CText
  address : BitVec 32
  size : BitVec 32
  function : Bool
deriving DecidableEq, Repr

structure DebugInfo where
  files : List CText := []
  lines : List DebugLine := []
  symbols : List DebugSymbol := []
deriving DecidableEq, Repr

/-! ## What libelf and libdw answer -/

/-- One row of a line program; `line` and `column` are C integers. -/
structure DwarfRow where
  address : Option (BitVec 64)
  endSequence : Option Bool
  line : Option (BitVec 32)
  column : Option (BitVec 32)
  path : Option CText
deriving DecidableEq, Repr

structure DwarfUnit where
  next : ℕ
  files : List (Option CText)
  rows : List (Option DwarfRow)
deriving DecidableEq, Repr

/-- The units, and the status of the call past the last of them. -/
structure DwarfLines where
  units : List DwarfUnit
  status : ℤ
deriving DecidableEq, Repr

structure SectionHeader where
  name : ℕ
  type : ℕ
  size : ℕ
  entsize : ℕ
  link : ℕ
deriving DecidableEq, Repr

structure ElfSymbol where
  name : ℕ
  value : BitVec 64
  size : BitVec 64
  info : BitVec 8
  shndx : ℕ
deriving DecidableEq, Repr

structure ElfObject where
  shdrnum : Option ℕ
  shdrstrndx : Option ℕ
  header : ℕ → Option SectionHeader
  strptr : ℕ → ℕ → Option CText
  data : ℕ → Bool
  symbol : ℕ → ℕ → Option ElfSymbol
  dwarf : Option DwarfLines

/-- The libraries and the host: `malloc` tells for each size whether it is granted. -/
structure DebugHost where
  malloc : ℕ → Bool
  elfVersion : Bool
  elfMemory : List (BitVec 8) → Option ElfObject
  qsortLines : List DebugLine → List DebugLine
  qsortSymbols : List DebugSymbol → List DebugSymbol

/-! ## Storage -/

section Storage

variable (malloc : ℕ → Bool)

def copyText (text : CText) : Option CText :=
  if text.length ≥ maxDebugText then none
  else if malloc (text.length + 1) then some text else none

def reserve (count capacity width : ℕ) : Option ℕ :=
  if count < capacity then some capacity
  else if count ≥ maxDebugRecords then none
  else
    let next := if capacity = 0 then 64 else capacity * 2
    let next := if next > maxDebugRecords then maxDebugRecords else next
    if malloc (next * width) then some next else none

/-- Item sizes on hosts with pointers of eight bytes. -/
def sizeofFile : ℕ := 8
def sizeofDebugLine : ℕ := 32
def sizeofDebugSymbol : ℕ := 24

structure DebugReader where
  info : DebugInfo := {}
  lineCapacity : ℕ := 0
  fileCapacity : ℕ := 0
  symbolCapacity : ℕ := 0
deriving DecidableEq, Repr

def fileIndex (reader : DebugReader) (path : Option CText) : Option (ℕ × DebugReader) :=
  match path with
  | none => none
  | some path =>
    match reader.info.files.findIdx? (· = path) with
    | some i => some (i, reader)
    | none =>
      if reader.info.files.length ≥ maxSourceFiles then none
      else do
        let copy ← copyText malloc path
        let capacity ← reserve malloc reader.info.files.length reader.fileCapacity sizeofFile
        return (reader.info.files.length, { reader with
          info := { reader.info with files := reader.info.files ++ [copy] }
          fileCapacity := capacity })

/-! ## Lines -/

def closeRange (reader : DebugReader) (previous : DebugLine) (address : BitVec 64) :
    Option DebugReader :=
  if address.toNat < previous.beginAddress.toNat then none
  else if address.toNat > previous.beginAddress.toNat then do
    let capacity ← reserve malloc reader.info.lines.length reader.lineCapacity sizeofDebugLine
    return { reader with
      info := { reader.info with
        lines := reader.info.lines ++ [{ previous with endAddress := address.setWidth 32 }] }
      lineCapacity := capacity }
  else some reader

/-- One turn of the loop over the rows; the pending row is the one that no range exists for yet. -/
def readRow (ramSize : ℕ) (state : DebugReader × Option DebugLine) (row : Option DwarfRow) :
    Option (DebugReader × Option DebugLine) := do
  let row ← row
  let address ← row.address
  let ending ← row.endSequence
  if address.toNat > ramSize then none
  else
    let reader ← match state.2 with
      | none => some state.1
      | some previous => closeRange malloc state.1 previous address
    if ending then return (reader, none)
    else
      let line ← row.line
      let column ← row.column
      -- Line zero explicitly has no corresponding source statement.
      if 0 < line.toInt then
        let (file, reader) ← fileIndex malloc reader row.path
        return (reader, some {
          beginAddress := address.setWidth 32
          file := file
          line := line
          column := if 0 < column.toInt then column else 0 })
      else return (reader, none)

def readFile (reader : DebugReader) (path : Option CText) : Option DebugReader :=
  match path with
  | none => some reader
  | some path => (fileIndex malloc reader (some path)).map Prod.snd

/-- One turn of the loop over the units, which carries the offset of the unit. -/
def readUnit (ramSize : ℕ) (state : DebugReader × ℕ) (unit : DwarfUnit) :
    Option (DebugReader × ℕ) := do
  if unit.next ≤ state.2 ∨ unit.rows.length > maxDebugRecords
    ∨ unit.files.length > maxSourceFiles then none
  else
    let reader ← unit.files.foldlM (readFile malloc) state.1
    let (reader, pending) ← unit.rows.foldlM (readRow malloc ramSize) (reader, none)
    -- A range only exists when bounded by a later row or end_sequence.
    if pending.isSome then none else return (reader, unit.next)

def readLines (elf : ElfObject) (reader : DebugReader) (ramSize : ℕ) : Option DebugReader := do
  let dwarf ← elf.dwarf
  let (reader, _) ← dwarf.units.foldlM (readUnit malloc ramSize) (reader, 0)
  if dwarf.status ≥ 0 then return reader else none

/-! ## Symbols -/

def readSymbol (elf : ElfObject) (i link : ℕ) (reader : DebugReader) (j : ℕ) :
    Option DebugReader := do
  let symbol ← elf.symbol i j
  let type := symbol.info &&& 0xF#8
  if symbol.shndx = 0 ∨ (type ≠ 2#8 ∧ type ≠ 1#8 ∧ type ≠ 0#8) then return reader
  else
    let name ← elf.strptr link symbol.name
    if name = [] then return reader
    else
      let copy ← copyText malloc name
      let capacity ← reserve malloc reader.info.symbols.length reader.symbolCapacity sizeofDebugSymbol
      return { reader with
        info := { reader.info with symbols := reader.info.symbols ++ [{
          name := copy
          address := symbol.value.setWidth 32
          size := symbol.size.setWidth 32
          function := type = 2#8 }] }
        symbolCapacity := capacity }

/-- `.debug_line` and `.zdebug_line`. -/
def debugLineName : CText := [0x2E, 0x64, 0x65, 0x62, 0x75, 0x67, 0x5F, 0x6C, 0x69, 0x6E, 0x65]
def zdebugLineName : CText := [0x2E, 0x7A, 0x64, 0x65, 0x62, 0x75, 0x67, 0x5F, 0x6C, 0x69, 0x6E, 0x65]

def sectionName (elf : ElfObject) (strings : ℕ) (header : SectionHeader) : Option CText :=
  if strings = 0 then some [] else elf.strptr strings header.name

/-- One turn of the loop over the sections, which carries `has_debug`. -/
def readSection (elf : ElfObject) (strings : ℕ) (state : DebugReader × Bool) (i : ℕ) :
    Option (DebugReader × Bool) := do
  let header ← elf.header i
  let name ← sectionName elf strings header
  let hasDebug := if name = debugLineName ∨ name = zdebugLineName then header.size != 0 else state.2
  if header.type ≠ 2 then return (state.1, hasDebug)
  else if header.entsize ≠ 16 ∨ header.size % header.entsize ≠ 0
    ∨ header.size / header.entsize > maxDebugRecords then none
  else
    let names ← elf.header header.link
    if names.type ≠ 3 ∨ !elf.data i then none
    else
      let reader ← (List.range (header.size / header.entsize)).foldlM
        (readSymbol malloc elf i header.link) state.1
      return (reader, hasDebug)

def readSymbols (elf : ElfObject) (reader : DebugReader) : Option (DebugReader × Bool) := do
  let count ← elf.shdrnum
  let strings ← elf.shdrstrndx
  (List.range' 1 (count - 1)).foldlM (readSection malloc elf strings) (reader, false)

end Storage

/-! ## Reading -/

def compareLines (a b : DebugLine) : ℤ :=
  if a.beginAddress ≠ b.beginAddress then if a.beginAddress < b.beginAddress then -1 else 1
  else if a.endAddress ≠ b.endAddress then if a.endAddress < b.endAddress then -1 else 1
  else 0

def strcmp : CText → CText → ℤ
  | [], [] => 0
  | [], d :: _ => -d.toNat
  | c :: _, [] => c.toNat
  | c :: s, d :: t => if c = d then strcmp s t else c.toNat - d.toNat

def compareSymbols (a b : DebugSymbol) : ℤ :=
  if a.address ≠ b.address then if a.address < b.address then -1 else 1
  else strcmp a.name b.name

def annotate (maximum : BitVec 32) : List DebugLine → List DebugLine
  | [] => []
  | line :: rest =>
    let maximum := if line.endAddress > maximum then line.endAddress else maximum
    { line with maximumEnd := maximum } :: annotate maximum rest

/-- What `debug_info_read` does to the lines it has read. -/
def sortAndAnnotate (qsort : List DebugLine → List DebugLine) (lines : List DebugLine) :
    List DebugLine :=
  annotate 0 (if lines.length > 1 then qsort lines else lines)

/-- The part of `debug_info_read` that an ELF is read in. -/
def readElfInfo (host : DebugHost) (program : Program) : Option DebugInfo :=
  match program.elfData with
  | none => none
  | some elfData =>
    if program.elfSize = 0 ∨ !host.elfVersion then none
    else do
      let elf ← host.elfMemory (elfData.take program.elfSize)
      let (reader, hasDebug) ← readSymbols host.malloc elf {}
      if hasDebug then (readLines host.malloc elf reader program.memory.size).map (·.info)
      else return reader.info

/-- Success, the error text, and the information that the caller then owns. -/
def debugInfoRead (host : DebugHost) (program : Program) (output : DebugInfo) :
    Bool × Option String × DebugInfo :=
  match if program.format = .elf then readElfInfo host program else some {} with
  | none =>
    (false, some "invalid, oversized, or unavailable ELF debug/symbol metadata", output)
  | some next => (true, none, { next with
      lines := sortAndAnnotate host.qsortLines next.lines
      symbols := if next.symbols.length > 1 then host.qsortSymbols next.symbols else next.symbols })

/-! ## Queries -/

def debugInfoLookup (info : DebugInfo) (address : BitVec 32) : Option DebugLine :=
  let line := fun i => info.lines.getD i {}
  let left := partitionPoint (fun i => (line i).beginAddress ≤ address) 0 info.lines.length
  (scanBack (fun i => (line i).maximumEnd ≤ address)
    (fun i => (line i).beginAddress ≤ address && address < (line i).endAddress) left).map line

def debugInfoLineAddress (info : DebugInfo) (file : ℕ) (line : BitVec 32) : Option (BitVec 32) :=
  (info.lines.find? fun l => l.file = file && l.line = line).map (·.beginAddress)

end Riscv32
