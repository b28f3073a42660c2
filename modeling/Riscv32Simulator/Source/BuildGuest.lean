import Riscv32Simulator.Library.Numerals

/-! `build_guest.py`: the sizes it accepts. A string is the list of its code points. -/

namespace Riscv32.BuildGuest
open Numerals

def maxRam : ℕ := 256 * 1024 * 1024

/-- `0[xX][0-9a-fA-F]+|[0-9]+` -/
def isDigits (text : List ℕ) : Bool :=
  (text.take 1 = [0x30] && (text.drop 1).take 1 ∈ [[0x78], [0x58]] && text.drop 2 ≠ []
    && (text.drop 2).all isHex) || (text ≠ [] && text.all isDecimal)

def units : List (List ℕ × ℕ) :=
  [([0x42], 1), ([0x4B, 0x69, 0x42], 1024), ([0x4D, 0x69, 0x42], 1024 * 1024)]

def fullmatch (text : List ℕ) : Option (List ℕ × ℕ) :=
  units.findSome? fun unit =>
    let digits := text.take (text.length - unit.1.length)
    if text = digits ++ unit.1 ∧ isDigits digits then some (digits, unit.2) else none

/-- The most digits that `int` reads in base 10; a power of two as a base has no such limit. -/
def maxStrDigits : ℕ := 4300

/-- `int(digits, base)`, where a prefix goes with base 16; `none` is its `ValueError`. -/
def intOf (digits : List ℕ) : Option ℕ :=
  if digits.take 1 = [0x30] ∧ (digits.drop 1).take 1 ∈ [[0x78], [0x58]] then
    some (value 16 (digits.drop 2))
  else if digits.length > maxStrDigits then none
  else some (value 10 digits)

def sizeBytes (text : List ℕ) : Option ℕ :=
  match fullmatch text with
  | none => none
  | some (digits, unit) =>
    match intOf digits with
    | none => none
    | some value =>
      let value := value * unit
      if value < 16 ∨ value > maxRam ∨ value % 16 ≠ 0 then none else some value

end Riscv32.BuildGuest
