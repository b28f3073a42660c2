import Riscv32Simulator.Source.Memory

/-! `program.h`: a loaded image with its addresses, and the error of a failed load. -/

namespace Riscv32

inductive ProgramFormat
  | words | binary | elf
deriving DecidableEq, Repr

structure Program where
  memory : Memory := Memory.empty
  loadAddress : BitVec 32 := 0
  entry : BitVec 32 := 0
  /-- Address span, including zero-filled gaps and ELF BSS. -/
  imageSize : ℕ := 0
  format : ProgramFormat := .words
  elfData : Option (List (BitVec 8)) := none
  elfSize : ℕ := 0
deriving DecidableEq

structure ProgramError where
  line : ℕ
  message : String
deriving DecidableEq, Repr

end Riscv32
