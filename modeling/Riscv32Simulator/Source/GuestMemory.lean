import Riscv32Simulator.Library.Checked

/-! The guest runtime's `memory.c`: block operations on the guest's flat address space, in which
`size_t` and `uintptr_t` have 32 bits. -/

namespace Riscv32
open Checked

abbrev AddressSpace : Type := BitVec 32 → BitVec 8

namespace AddressSpace

/-- `out[i] = value` where `address` is `out + i`. -/
def store (space : AddressSpace) (address : BitVec 32) (value : BitVec 8) : AddressSpace :=
  fun a => if a = address then value else space a

end AddressSpace

/-- A turn of `for (size_t i = 0; i < count; ++i) out[i] = in[i]`. -/
def copyForwardTurn (out input count : BitVec 32) (s : BitVec 32 × AddressSpace) :
    Except (Stop Empty) ((BitVec 32 × AddressSpace) ⊕ AddressSpace) :=
  if s.1 < count then .ok (.inl (s.1 + 1, s.2.store (out + s.1) (s.2 (input + s.1))))
  else .ok (.inr s.2)

/-- A turn of `for (size_t i = count; i != 0; --i) out[i - 1] = in[i - 1]`. -/
def copyBackwardTurn (out input : BitVec 32) (s : BitVec 32 × AddressSpace) :
    Except (Stop Empty) ((BitVec 32 × AddressSpace) ⊕ AddressSpace) :=
  if s.1 ≠ 0 then .ok (.inl (s.1 - 1, s.2.store (out + (s.1 - 1)) (s.2 (input + (s.1 - 1)))))
  else .ok (.inr s.2)

/-- The returned pointer and the address space afterwards. -/
def memcpy (space : AddressSpace) (destination source count : BitVec 32) :
    Except (Stop Empty) (BitVec 32 × AddressSpace) := do
  let out := destination
  let input := source
  let space ← loop (copyForwardTurn out input count) (count.toNat + 1) (0, space)
  return (destination, space)

def memmove (space : AddressSpace) (destination source count : BitVec 32) :
    Except (Stop Empty) (BitVec 32 × AddressSpace) := do
  let out := destination
  let input := source
  let space ←
    if out ≤ input then loop (copyForwardTurn out input count) (count.toNat + 1) (0, space)
    else loop (copyBackwardTurn out input) (count.toNat + 1) (count, space)
  return (destination, space)

/-- A turn of `for (size_t i = 0; i < count; ++i) out[i] = (unsigned char)value`. -/
def fillTurn (out value count : BitVec 32) (s : BitVec 32 × AddressSpace) :
    Except (Stop Empty) ((BitVec 32 × AddressSpace) ⊕ AddressSpace) :=
  if s.1 < count then .ok (.inl (s.1 + 1, s.2.store (out + s.1) (value.setWidth 8)))
  else .ok (.inr s.2)

def memset (space : AddressSpace) (destination value count : BitVec 32) :
    Except (Stop Empty) (BitVec 32 × AddressSpace) := do
  let out := destination
  let space ← loop (fillTurn out value count) (count.toNat + 1) (0, space)
  return (destination, space)

/-- A turn of the loop of `memcmp`, with `i`; the loop is left at the first difference. -/
def compareTurn (space : AddressSpace) (a b count : BitVec 32) (i : BitVec 32) :
    Except (Stop Empty) (BitVec 32 ⊕ BitVec 32) :=
  if i < count then
    if space (a + i) ≠ space (b + i) then
      .ok (.inr (if space (a + i) < space (b + i) then -1 else 1))
    else .ok (.inl (i + 1))
  else .ok (.inr 0)

def memcmp (space : AddressSpace) (left right count : BitVec 32) : Except (Stop Empty) (BitVec 32) :=
  loop (compareTurn space left right count) (count.toNat + 1) 0

end Riscv32
