import Riscv32Simulator.Library.WriteLog
import Riscv32Simulator.Source.MemoryLaws

/-! RAM under stores of mixed widths: a map from addresses to bytes in which the last store counts. -/

namespace Riscv32
open WriteLog

inductive MemoryWrite
  | u8 (address : BitVec 32) (value : BitVec 8)
  | u16 (address : BitVec 32) (value : BitVec 16)
  | u32 (address : BitVec 32) (value : BitVec 32)
deriving DecidableEq

namespace MemoryWrite

def address : MemoryWrite → BitVec 32
  | u8 address _ => address
  | u16 address _ => address
  | u32 address _ => address

def width : MemoryWrite → ℕ
  | u8 _ _ => 1
  | u16 _ _ => 2
  | u32 _ _ => 4

def value : MemoryWrite → ℕ
  | u8 _ value => value.toNat
  | u16 _ value => value.toNat
  | u32 _ value => value.toNat

def call (m : Memory) : MemoryWrite → Option Memory
  | u8 address value => memoryWriteU8 m address value
  | u16 address value => memoryWriteU16 m address value
  | u32 address value => memoryWriteU32 m address value

/-- A refused call leaves the memory it was given. -/
def attempt (m : Memory) (w : MemoryWrite) : Memory := (w.call m).getD m

def entry (w : MemoryWrite) : Entry (BitVec 8) := ⟨w.address.toNat, LittleEndian.bytes w.width w.value⟩

end MemoryWrite

/-- An aligned access of `width` bytes that ends inside RAM. -/
def InRam (size : ℕ) (address : BitVec 32) (width : ℕ) : Prop :=
  address.toNat % width = 0 ∧ address.toNat + width ≤ size

instance (size : ℕ) (address : BitVec 32) (width : ℕ) : Decidable (InRam size address width) :=
  inferInstanceAs (Decidable (_ ∧ _))

def bytesFrom (byte : ℕ → BitVec 8) (a n : ℕ) : List (BitVec 8) :=
  (List.range n).map fun k => byte (a + k)

def acceptedStores (size : ℕ) (ws : List MemoryWrite) : List (Entry (BitVec 8)) :=
  (ws.filter fun w => decide (InRam size w.address w.width)).map MemoryWrite.entry

theorem memoryAccessValid_iff_inRam {m : Memory} (hm : memoryReady m = true) (address : BitVec 32)
    {width : ℕ} (hw : 0 < width) :
    memoryAccessValid m address width = true ↔ InRam m.size address width := by
  rw [memoryAccessValid_iff, InRam]
  exact ⟨fun h => ⟨h.2.2.2, h.2.2.1⟩, fun h => ⟨hm, hw, h.2, h.1⟩⟩

namespace MemoryWrite

theorem width_pos (w : MemoryWrite) : 0 < w.width := by
  cases w <;> simp [width]

@[simp] theorem length_cells (w : MemoryWrite) : w.entry.cells.length = w.width :=
  LittleEndian.length_bytes _ _

theorem call_eq (m : Memory) (w : MemoryWrite) : w.call m =
    if memoryAccessValid m w.address w.width then some (m.splice w.entry.start w.entry.cells)
    else none := by
  cases w with
  | u8 address value =>
    simp only [call, memoryWriteU8, memoryByteSize, Memory.setByte_eq_splice, entry, MemoryWrite.address,
      width, MemoryWrite.value, leBytes_one, BitVec.setWidth_eq]
  | u16 address value =>
    simp only [call, memoryWriteU16_eq, entry, MemoryWrite.address, width, MemoryWrite.value, leBytes_two]
  | u32 address value =>
    simp only [call, memoryWriteU32_eq, entry, MemoryWrite.address, width, MemoryWrite.value, leBytes_four]

theorem isSome_call {m : Memory} (hm : memoryReady m = true) (w : MemoryWrite) :
    (w.call m).isSome = true ↔ InRam m.size w.address w.width := by
  rw [call_eq, ← memoryAccessValid_iff_inRam hm _ w.width_pos]
  split_ifs with h <;> simp [h]

theorem attempt_eq {m : Memory} (hm : memoryReady m = true) (w : MemoryWrite) : attempt m w =
    if InRam m.size w.address w.width then m.splice w.entry.start w.entry.cells else m := by
  rw [attempt, call_eq]
  simp only [memoryAccessValid_iff_inRam hm _ w.width_pos]
  split_ifs <;> rfl

theorem ready_attempt {m : Memory} (hm : memoryReady m = true) (w : MemoryWrite) :
    memoryReady (attempt m w) = true ∧ (attempt m w).size = m.size := by
  rw [attempt_eq hm]
  split_ifs
  · exact ⟨by rw [memoryReady_splice, hm], rfl⟩
  · exact ⟨hm, rfl⟩

theorem byte_attempt {m : Memory} (hm : memoryReady m = true) (w : MemoryWrite) (i : ℕ) :
    (attempt m w).byte i = if InRam m.size w.address w.width then put m.byte w.entry i else m.byte i := by
  rw [attempt_eq hm]
  split_ifs with h
  · have hlen : w.entry.start + w.entry.cells.length ≤ m.size := by
      rw [length_cells]
      exact h.2
    rw [Memory.byte_splice (memoryReady_isSome hm) hlen, put]
    by_cases hc : w.entry.Covers i
    · rw [if_pos hc, if_pos (show _ ∧ _ from hc)]
      exact getD_of_covers hc _ _
    · rw [if_neg hc, if_neg (show ¬ (_ ∧ _) from hc)]
  · rfl

end MemoryWrite

theorem acceptedStores_concat (size : ℕ) (ws : List MemoryWrite) (w : MemoryWrite) :
    acceptedStores size (ws ++ [w]) = acceptedStores size ws ++
      if InRam size w.address w.width then [w.entry] else [] := by
  rw [acceptedStores, List.filter_append, List.map_append, acceptedStores]
  split_ifs with h <;> simp [h]

/-- After any run of calls the memory has its old size and every byte is that of its last writer. -/
theorem after_writes {m : Memory} (hm : memoryReady m = true) (ws : List MemoryWrite) :
    memoryReady (ws.foldl MemoryWrite.attempt m) = true ∧
      (ws.foldl MemoryWrite.attempt m).size = m.size ∧
      (ws.foldl MemoryWrite.attempt m).byte = lastWriter m.byte (acceptedStores m.size ws) := by
  induction ws using List.reverseRecOn with
  | nil => exact ⟨hm, rfl, rfl⟩
  | append_singleton ws w ih =>
    obtain ⟨hready, hsize, hbyte⟩ := ih
    rw [List.foldl_append, List.foldl_cons, List.foldl_nil]
    obtain ⟨hready', hsize'⟩ := MemoryWrite.ready_attempt hready w
    refine ⟨hready', hsize'.trans hsize, ?_⟩
    funext i
    rw [MemoryWrite.byte_attempt hready, hsize, acceptedStores_concat, hbyte]
    split_ifs with h
    · rw [put_lastWriter]
    · rw [List.append_nil]

theorem reads_eq {m : Memory} (hm : memoryReady m = true) (address : BitVec 32) :
    (memoryReadU8 m address).map BitVec.toNat = (if InRam m.size address 1 then
      some (LittleEndian.value (bytesFrom m.byte address.toNat 1)) else none) ∧
    (memoryReadU16 m address).map BitVec.toNat = (if InRam m.size address 2 then
      some (LittleEndian.value (bytesFrom m.byte address.toNat 2)) else none) ∧
    (memoryReadU32 m address).map BitVec.toNat = (if InRam m.size address 4 then
      some (LittleEndian.value (bytesFrom m.byte address.toNat 4)) else none) := by
  rw [memoryReadU8, memoryByteSize, memoryReadU16_eq, memoryReadU32_eq]
  simp only [memoryAccessValid_iff_inRam hm address (by decide : 0 < 1),
    memoryAccessValid_iff_inRam hm address (by decide : 0 < 2),
    memoryAccessValid_iff_inRam hm address (by decide : 0 < 4)]
  refine ⟨?_, ?_, ?_⟩ <;> split_ifs <;>
    simp [bytesFrom, List.range_succ, LittleEndian.value, toNat_append_byte]

/-- Every call of a writing function succeeds exactly inside RAM and changes nothing when refused.
After any calls, every read of a run inside RAM combines the bytes of their last writers. -/
theorem ram_is_last_writer_map {m : Memory} (hm : memoryReady m = true) (ws : List MemoryWrite) :
    (∀ w : MemoryWrite, (w.call (ws.foldl MemoryWrite.attempt m)).isSome = true ↔
      InRam m.size w.address w.width) ∧
    (∀ w : MemoryWrite, ¬ InRam m.size w.address w.width →
      (ws ++ [w]).foldl MemoryWrite.attempt m = ws.foldl MemoryWrite.attempt m) ∧
    ∀ address : BitVec 32,
      (memoryReadU8 (ws.foldl MemoryWrite.attempt m) address).map BitVec.toNat =
        (if InRam m.size address 1 then some (LittleEndian.value (bytesFrom
          (lastWriter m.byte (acceptedStores m.size ws)) address.toNat 1)) else none) ∧
      (memoryReadU16 (ws.foldl MemoryWrite.attempt m) address).map BitVec.toNat =
        (if InRam m.size address 2 then some (LittleEndian.value (bytesFrom
          (lastWriter m.byte (acceptedStores m.size ws)) address.toNat 2)) else none) ∧
      (memoryReadU32 (ws.foldl MemoryWrite.attempt m) address).map BitVec.toNat =
        (if InRam m.size address 4 then some (LittleEndian.value (bytesFrom
          (lastWriter m.byte (acceptedStores m.size ws)) address.toNat 4)) else none) := by
  obtain ⟨hready, hsize, hbyte⟩ := after_writes hm ws
  refine ⟨fun w => ?_, fun w hw => ?_, fun address => ?_⟩
  · rw [MemoryWrite.isSome_call hready, hsize]
  · rw [List.foldl_append, List.foldl_cons, List.foldl_nil, MemoryWrite.attempt_eq hready, hsize,
      if_neg hw]
  · have hreads := reads_eq hready address
    rwa [hsize, hbyte] at hreads

theorem ram_is_last_writer_map_mixed :
    (memoryReadU32 ([.u32 0#32 0x44332211#32, .u16 2#32 0xBBAA#16, .u16 1#32 0xFFFF#16,
      .u8 3#32 0xCC#8].foldl MemoryWrite.attempt (Memory.zeroed 8)) 0#32).map BitVec.toNat =
        some 0xCCAA2211 := by
  have hm : memoryReady (Memory.zeroed 8) = true := by decide
  have hreads := (ram_is_last_writer_map hm [.u32 0#32 0x44332211#32, .u16 2#32 0xBBAA#16,
    .u16 1#32 0xFFFF#16, .u8 3#32 0xCC#8]).2.2 0#32
  exact hreads.2.2.trans (by decide)

end Riscv32
