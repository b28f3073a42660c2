import Riscv32Simulator.Library.Numerals
import Riscv32Simulator.Source.DebugInfo
import Riscv32Simulator.Source.Words
import Riscv32Simulator.Source.Memory

/-! `monitor.c`: numbers and RAM sizes on the command line. -/

namespace Riscv32
open Numerals

def isdigit (c : BitVec 8) : Bool := 0x30#8 ≤ c && c ≤ 0x39#8

def codes (text : CText) : List ℕ := text.map BitVec.toNat

def digitOfBase (base : ℕ) (c : BitVec 8) : Bool := if base = 16 then isxdigit c else isdigit c

/-- `strtoull` for the bases 10 and 16: the number, whether it is out of range, and the text behind
what was converted. -/
def strtoull (text : CText) (base : ℕ) : BitVec 64 × Bool × CText :=
  let p := skipSpace text
  let negative := firstChar p = 0x2D#8
  let p := if firstChar p = 0x2D#8 ∨ firstChar p = 0x2B#8 then p.drop 1 else p
  let p := if base = 16 ∧ isxdigit (firstChar (skipPrefix p)) then skipPrefix p else p
  let digits := p.takeWhile (digitOfBase base)
  let rest := p.dropWhile (digitOfBase base)
  if digits = [] then (0, false, text)
  else
    let parsed := value base (codes digits)
    if parsed < 2 ^ 64 then
      (if negative then -BitVec.ofNat 64 parsed else BitVec.ofNat 64 parsed, false, rest)
    else (BitVec.allOnes 64, true, rest)

def number (text : CText) (maximum : BitVec 64) : Option (BitVec 64) :=
  if text = [] ∨ firstChar text = 0x2B#8 ∨ firstChar text = 0x2D#8 ∨ isspace (firstChar text) then none
  else
    let hex := firstChar text = 0x30#8 ∧
      (firstChar (text.drop 1) = 0x78#8 ∨ firstChar (text.drop 1) = 0x58#8)
    let base := if hex then 16 else 10
    let text := if hex then text.drop 2 else text
    if hex ∧ ¬ isxdigit (firstChar text) then none
    else if ¬ text.all (digitOfBase base) then none
    else
      let (parsed, erange, rest) := strtoull text base
      if erange ∨ rest ≠ [] ∨ maximum < parsed then none else some parsed

/-- The chain of comparisons in `parse_ram_size`: the unit, and the length of its suffix. -/
def ramSizeUnit (text : CText) : Option (ℕ × ℕ) :=
  let length := text.length
  if length > 3 ∧ text.drop (length - 3) = [0x4B#8, 0x69#8, 0x42#8] then some (memoryKib, 3)
  else if length > 3 ∧ text.drop (length - 3) = [0x4D#8, 0x69#8, 0x42#8] then some (memoryMib, 3)
  else if length > 1 ∧ text.drop (length - 1) = [0x42#8] then some (memoryByteSize, 1)
  else none

def parseRamSize (text : CText) : Option ℕ :=
  match ramSizeUnit text with
  | none => none
  | some (unit, suffix) =>
    let count := text.length - suffix
    if count ≥ 32 then none
    else
      match number (text.take count) (BitVec.ofNat 64 (memoryMaxSize / unit)) with
      | none => none
      | some amount =>
        let size := amount.toNat * unit % 2 ^ 64
        if memorySizeValid size then some size else none

end Riscv32
