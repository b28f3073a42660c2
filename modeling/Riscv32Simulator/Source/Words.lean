import Riscv32Simulator.Source.ProgramIo

/-! `program.c`: a text of hexadecimal instruction words. -/

namespace Riscv32

/-! ## Characters -/

def isspace (c : BitVec 8) : Bool := c = 0x20#8 || (0x09#8 ≤ c && c ≤ 0x0D#8)

def isxdigit (c : BitVec 8) : Bool :=
  (0x30#8 ≤ c && c ≤ 0x39#8) || (0x41#8 ≤ c && c ≤ 0x46#8) || (0x61#8 ≤ c && c ≤ 0x66#8)

def tolower (c : BitVec 8) : BitVec 8 := if 0x41#8 ≤ c ∧ c ≤ 0x5A#8 then c + 0x20#8 else c

/-- `*p`, where `p` points into a text that a null byte ends. -/
def firstChar (p : List (BitVec 8)) : BitVec 8 := p.headD 0

def digitValue (c : BitVec 8) : BitVec 32 :=
  if c ≤ 0x39#8 then c.setWidth 32 - 0x30#32 else (tolower c).setWidth 32 - 0x61#32 + 10#32

/-! ## One line -/

def skipSpace (p : List (BitVec 8)) : List (BitVec 8) := p.dropWhile isspace

def skipPrefix (p : List (BitVec 8)) : List (BitVec 8) :=
  if firstChar p = 0x30#8 ∧ (firstChar (p.drop 1) = 0x78#8 ∨ firstChar (p.drop 1) = 0x58#8) then
    p.drop 2
  else p

def readDigits : List (BitVec 8) → (word : BitVec 32) → (digits : ℕ) →
    Except String (BitVec 32 × ℕ × List (BitVec 8))
  | [], word, digits => .ok (word, digits, [])
  | c :: p, word, digits =>
    if isxdigit c then
      if digits + 1 > 8 then .error "word exceeds 32 bits"
      else readDigits p (word <<< 4 ||| digitValue c) (digits + 1)
    else .ok (word, digits, c :: p)

def endWord (word : BitVec 32) (digits : ℕ) (p : List (BitVec 8)) :
    Except String (Option (BitVec 32)) :=
  if digits = 0 then .error "expected a hexadecimal instruction word" else
  let p := skipSpace p
  if firstChar p ≠ 0x00#8 ∧ firstChar p ≠ 0x23#8 then .error "expected one word per line"
  else .ok (some word)

def readWord (line : List (BitVec 8)) : Except String (Option (BitVec 32)) :=
  let p := skipSpace line
  if firstChar p = 0x23#8 ∨ firstChar p = 0x00#8 then .ok none else
  match readDigits (skipPrefix p) 0 0 with
  | .error message => .error message
  | .ok (word, digits, p) => endWord word digits p

def placeWord (availableBytes lineNumber : ℕ) (program : Program) (word : BitVec 32) :
    Except ProgramError Program :=
  if program.imageSize > availableBytes - memoryWordSize then
    .error ⟨lineNumber, "program does not fit in RAM"⟩ else
  match memoryWriteU32 program.memory
      (program.loadAddress + BitVec.ofNat 32 program.imageSize) word with
  | none => .error ⟨lineNumber, "invalid program address"⟩
  | some memory => .ok { program with
      memory := memory, imageSize := program.imageSize + memoryWordSize }

def readLine (availableBytes lineNumber : ℕ) (line : List (BitVec 8)) (program : Program) :
    Except ProgramError Program :=
  match readWord line with
  | .error message => .error ⟨lineNumber, message⟩
  | .ok none => .ok program
  | .ok (some word) => placeWord availableBytes lineNumber program word

/-! ## All lines -/

def checkWords (program : Program) : Except ProgramError Program :=
  if program.imageSize = 0 then .error ⟨0, "program is empty"⟩
  else if (program.entry - program.loadAddress).toNat ≥ program.imageSize then
    .error ⟨0, "entry must point inside the loaded program"⟩
  else .ok program

/-- Both loops of `read_words` as one recursion over the stream; `line` is what the line buffer
holds, and a pass of the outer loop starts with an empty one. -/
def readWordsLoop (failing : Bool) (availableBytes : ℕ) :
    List (BitVec 8) → (line : List (BitVec 8)) → (lineNumber : ℕ) → Program →
      Except ProgramError Program
  | [], line, lineNumber, program =>
    if failing then .error ⟨lineNumber + 1, "input read error"⟩
    else if line.length = 0 then checkWords program
    else match readLine availableBytes (lineNumber + 1) line program with
    | .error e => .error e
    -- the next pass finds the end of file again
    | .ok program => checkWords program
  | ch :: rest, line, lineNumber, program =>
    if ch = 0x0A#8 then
      match readLine availableBytes (lineNumber + 1) line program with
      | .error e => .error e
      | .ok program => readWordsLoop failing availableBytes rest [] (lineNumber + 1) program
    else if ch = 0x00#8 then .error ⟨lineNumber + 1, "NUL byte in text input"⟩
    else if line.length + 1 = 512 then .error ⟨lineNumber + 1, "line exceeds 511 bytes"⟩
    else readWordsLoop failing availableBytes rest (line ++ [ch]) lineNumber program

def readWords (input : Input) (program : Program) : Except ProgramError Program :=
  readWordsLoop input.failing (program.memory.size - program.loadAddress.toNat) input.rest [] 0
    program

/-- `calloc` tells whether the host grants the RAM; a failed call leaves its output alone. -/
def programReadWords (input : Input) (ramSize : ℕ) (loadAddress entry : BitVec 32)
    (calloc : Bool) : Except ProgramError Program :=
  match programAddressValid ramSize loadAddress entry with
  | .error e => .error e
  | .ok () =>
    match memoryInit Memory.empty ramSize calloc with
    | none => .error ⟨0, "cannot allocate program RAM"⟩
    | some memory => readWords input
        { memory := memory, loadAddress := loadAddress, entry := entry }

end Riscv32
