import Riscv32Simulator.Source.Memory

/-! What the checked accesses compute: little-endian runs of the RAM contents. -/

namespace Riscv32
open Splice

theorem memorySizeValid_iff (size : ℕ) :
    memorySizeValid size = true ↔ 4 ≤ size ∧ size ≤ 268435456 ∧ size % 4 = 0 := by
  simp only [memorySizeValid, Bool.and_eq_true, decide_eq_true_eq, beq_iff_eq, and_assoc]
  rfl

namespace Memory

theorem ext_bytes {m m' : Memory} (hb : m.bytes = m'.bytes) (hs : m.size = m'.size) : m = m' := by
  cases m
  cases m'
  subst hb hs
  rfl

theorem ext_contents {m m' : Memory} (h : m.bytes.isSome) (h' : m'.bytes.isSome)
    (hc : m.contents = m'.contents) (hs : m.size = m'.size) : m = m' := by
  obtain ⟨b, hb⟩ := Option.isSome_iff_exists.mp h
  obtain ⟨b', hb'⟩ := Option.isSome_iff_exists.mp h'
  refine ext_bytes ?_ hs
  simp only [contents, hb, hb', Option.getD_some] at hc
  rw [hb, hb', hc]

theorem length_contents {m : Memory} (h : m.bytes.isSome) : m.contents.length = m.size := by
  obtain ⟨b, hb⟩ := Option.isSome_iff_exists.mp h
  rw [contents, hb, Option.getD_some, m.length_bytes b hb]

theorem ext_byte {m m' : Memory} (h : m.bytes.isSome) (h' : m'.bytes.isSome)
    (hs : m.size = m'.size) (hb : ∀ a < m.size, m.byte a = m'.byte a) : m = m' := by
  have hl := length_contents h
  have hl' := length_contents h'
  refine ext_contents h h' (List.ext_getElem (by omega) fun a ha ha' => ?_) hs
  have hh := hb a (hl ▸ ha)
  rwa [byte, byte, List.getD_eq_getElem _ _ ha, List.getD_eq_getElem _ _ ha'] at hh

@[simp] theorem contents_zeroed (size : ℕ) : (zeroed size).contents = List.replicate size 0 := rfl

@[simp] theorem size_zeroed (size : ℕ) : (zeroed size).size = size := rfl

@[simp] theorem isSome_zeroed (size : ℕ) : (zeroed size).bytes.isSome := rfl

@[simp] theorem byte_zeroed (size i : ℕ) : (zeroed size).byte i = 0 := by
  rw [byte, contents_zeroed, List.getD_eq_getElem?_getD, List.getElem?_replicate]
  split_ifs <;> rfl

@[simp] theorem size_splice (m : Memory) (a : ℕ) (ys : List (BitVec 8)) :
    (m.splice a ys).size = m.size := rfl

@[simp] theorem isSome_splice (m : Memory) (a : ℕ) (ys : List (BitVec 8)) :
    (m.splice a ys).bytes.isSome = m.bytes.isSome := Option.isSome_map

theorem contents_splice (m : Memory) (a : ℕ) {ys : List (BitVec 8)} :
    (m.splice a ys).contents = if m.bytes.isSome then overwrite m.contents a ys else [] := by
  cases h : m.bytes <;> simp [splice, contents, h]

theorem contents_splice_of_isSome {m : Memory} (h : m.bytes.isSome) (a : ℕ)
    (ys : List (BitVec 8)) : (m.splice a ys).contents = overwrite m.contents a ys := by
  rw [contents_splice, if_pos h]

@[simp] theorem splice_nil (m : Memory) (a : ℕ) : m.splice a [] = m :=
  ext_bytes (by simp [splice]) rfl

theorem splice_append (m : Memory) (a : ℕ) (ys zs : List (BitVec 8)) :
    m.splice a (ys ++ zs) = (m.splice a ys).splice (a + ys.length) zs :=
  ext_bytes (by simp only [splice, Option.map_map, Function.comp_def, overwrite_append]) rfl

theorem splice_cons (m : Memory) (a : ℕ) (y : BitVec 8) (ys : List (BitVec 8)) :
    m.splice a (y :: ys) = (m.setByte a y).splice (a + 1) ys :=
  ext_bytes (by simp only [splice, setByte, Option.map_map, Function.comp_def, overwrite]) rfl

theorem setByte_eq_splice (m : Memory) (a : ℕ) (y : BitVec 8) : m.setByte a y = m.splice a [y] :=
  ext_bytes rfl rfl

theorem byte_splice {m : Memory} (h : m.bytes.isSome) {a : ℕ} {ys : List (BitVec 8)}
    (ha : a + ys.length ≤ m.size) (i : ℕ) : (m.splice a ys).byte i =
      if a ≤ i ∧ i < a + ys.length then ys.getD (i - a) 0 else m.byte i := by
  rw [byte, contents_splice_of_isSome h, getD_overwrite _ _ (by rwa [length_contents h])]
  rfl

theorem getElem?_contents {m : Memory} (h : m.bytes.isSome) {i : ℕ} (hi : i < m.size) :
    m.contents[i]? = some (m.byte i) := by
  have hlt : i < m.contents.length := by rwa [length_contents h]
  rw [byte, List.getElem?_eq_getElem hlt, List.getD_eq_getElem _ _ hlt]

theorem slice_congr {m m' : Memory} (h : m.bytes.isSome) (h' : m'.bytes.isSome) {a n : ℕ}
    (ha : a + n ≤ m.size) (ha' : a + n ≤ m'.size)
    (hb : ∀ i, a ≤ i → i < a + n → m'.byte i = m.byte i) :
    slice m'.contents a n = slice m.contents a n := by
  apply List.ext_getElem?
  intro i
  rw [getElem?_slice, getElem?_slice]
  split_ifs with hi
  · rw [getElem?_contents h (by omega), getElem?_contents h' (by omega),
      hb (a + i) (by omega) (by omega)]
  · rfl

theorem splice_splice {m : Memory} (h : m.bytes.isSome) {a : ℕ} {ys zs : List (BitVec 8)}
    (hl : ys.length = zs.length) (ha : a + zs.length ≤ m.size) :
    (m.splice a ys).splice a zs = m.splice a zs := by
  refine ext_contents (by simpa using h) (by simpa using h) ?_ rfl
  rw [contents_splice_of_isSome (by simpa using h), contents_splice_of_isSome h,
    contents_splice_of_isSome h, overwrite_overwrite _ hl (by rwa [length_contents h])]

theorem splice_slice {m : Memory} (h : m.bytes.isSome) {a n : ℕ} (ha : a + n ≤ m.size) :
    m.splice a (slice m.contents a n) = m := by
  refine ext_contents (by simpa using h) h ?_ rfl
  rw [contents_splice_of_isSome h, overwrite_slice _ (by rwa [length_contents h])]

theorem splice_contents {m m' : Memory} (h : m.bytes.isSome) (h' : m'.bytes.isSome)
    (hs : m.size = m'.size) : m.splice 0 m'.contents = m' := by
  have hl := length_contents h'
  refine ext_contents (by simpa using h) h' ?_ hs
  rw [contents_splice_of_isSome h]
  apply List.ext_getElem?
  intro i
  rw [getElem?_overwrite _ _ (by rw [length_contents h]; omega)]
  split_ifs with hi
  · rfl
  · rw [List.getElem?_eq_none (by rw [length_contents h]; omega), List.getElem?_eq_none (by omega)]

end Memory

theorem memoryReady_isSome {m : Memory} (h : memoryReady m = true) : m.bytes.isSome := by
  simp only [memoryReady, Bool.and_eq_true] at h
  exact h.1

theorem memoryReady_size {m : Memory} (h : memoryReady m = true) : memorySizeValid m.size = true := by
  simp only [memoryReady, Bool.and_eq_true] at h
  exact h.2

@[simp] theorem memoryReady_splice (m : Memory) (a : ℕ) (ys : List (BitVec 8)) :
    memoryReady (m.splice a ys) = memoryReady m := by
  rw [memoryReady, memoryReady, Memory.isSome_splice, Memory.size_splice]

theorem memoryAccessValid_iff (m : Memory) (a : BitVec 32) (width : ℕ) :
    memoryAccessValid m a width = true ↔
      memoryReady m = true ∧ 0 < width ∧ a.toNat + width ≤ m.size ∧ a.toNat % width = 0 := by
  simp only [memoryAccessValid, Bool.and_eq_true, decide_eq_true_eq, beq_iff_eq, and_assoc]
  refine and_congr_right fun _ => and_congr_right fun _ => ?_
  constructor
  · rintro ⟨h1, h2, h3⟩
    exact ⟨by omega, h3⟩
  · rintro ⟨h1, h3⟩
    exact ⟨by omega, by omega, h3⟩

@[simp] theorem memoryAccessValid_splice (m : Memory) (a : ℕ) (ys : List (BitVec 8))
    (address : BitVec 32) (width : ℕ) :
    memoryAccessValid (m.splice a ys) address width = memoryAccessValid m address width := by
  rw [memoryAccessValid, memoryReady_splice]
  rfl

theorem memoryInit_empty (size : ℕ) (calloc : Bool) : memoryInit Memory.empty size calloc =
    if memorySizeValid size && calloc then some (Memory.zeroed size) else none := by
  cases h : memorySizeValid size <;> cases calloc <;> simp [memoryInit, Memory.empty, h]

theorem memoryCopy_eq (source destination : Memory) : memoryCopy source destination =
    if memoryReady source && memoryReady destination && source.size == destination.size then
      some source else none := by
  unfold memoryCopy
  cases hs : memoryReady source <;> cases hd : memoryReady destination <;>
    simp only [Bool.not_true, Bool.not_false, Bool.true_or, Bool.or_true, Bool.false_or,
      Bool.false_and, Bool.and_false, Bool.true_and, if_true, Bool.false_eq_true, if_false]
  by_cases hz : source.size = destination.size
  · rw [Memory.splice_contents (memoryReady_isSome hd) (memoryReady_isSome hs) hz.symm]
    simp [hz]
  · simp [hz]

theorem memoryClone_empty (source : Memory) (calloc : Bool) :
    memoryClone source Memory.empty calloc =
      if memoryReady source && calloc then some source else none := by
  cases hs : memoryReady source
  · simp [memoryClone, hs]
  · have hsz := memoryReady_size hs
    have hcopy := Memory.splice_contents (Memory.isSome_zeroed source.size) (memoryReady_isSome hs) rfl
    rw [memoryClone, memoryInit_empty, hs, hsz]
    cases calloc
    · rfl
    · exact congrArg some hcopy

/-! ## Accesses as runs of bytes -/

theorem halfword_eq_append (b0 b1 : BitVec 8) :
    (b0.setWidth 32 ||| b1.setWidth 32 <<< 8).setWidth 16 = b1 ++ b0 := by
  apply BitVec.eq_of_getLsbD_eq
  intro i hi
  simp only [BitVec.getLsbD_append, BitVec.getLsbD_setWidth, BitVec.getLsbD_or,
    BitVec.getLsbD_shiftLeft]
  interval_cases i <;> simp

theorem word_eq_append (b0 b1 b2 b3 : BitVec 8) :
    b0.setWidth 32 ||| b1.setWidth 32 <<< 8 ||| b2.setWidth 32 <<< 16 ||| b3.setWidth 32 <<< 24 =
      b3 ++ b2 ++ b1 ++ b0 := by
  apply BitVec.eq_of_getLsbD_eq
  intro i hi
  simp only [BitVec.getLsbD_append, BitVec.getLsbD_setWidth, BitVec.getLsbD_or,
    BitVec.getLsbD_shiftLeft]
  interval_cases i <;> simp

theorem toNat_append_byte {w : ℕ} (x : BitVec w) (b : BitVec 8) :
    (x ++ b).toNat = b.toNat + 256 * x.toNat := by
  rw [BitVec.toNat_append, ← Nat.shiftLeft_add_eq_or_of_lt b.isLt, Nat.shiftLeft_eq]
  omega

theorem toNat_address_add {m : Memory} {a : BitVec 32} {width k : ℕ}
    (h : memoryAccessValid m a width = true) (hk : k < width) :
    (a + BitVec.ofNat 32 k).toNat = a.toNat + k := by
  obtain ⟨hr, -, ha, -⟩ := (memoryAccessValid_iff m a width).mp h
  obtain ⟨-, hs, -⟩ := (memorySizeValid_iff m.size).mp (memoryReady_size hr)
  rw [BitVec.toNat_add, BitVec.toNat_ofNat]
  omega

theorem memoryReadU16_eq (m : Memory) (a : BitVec 32) : memoryReadU16 m a =
    if memoryAccessValid m a 2 then some (m.byte (a.toNat + 1) ++ m.byte a.toNat) else none := by
  unfold memoryReadU16 memoryHalfwordSize
  split_ifs with h
  · rw [halfword_eq_append, toNat_address_add h (by decide : 1 < 2)]
  · rfl

theorem memoryReadU32_eq (m : Memory) (a : BitVec 32) : memoryReadU32 m a =
    if memoryAccessValid m a 4 then
      some (m.byte (a.toNat + 3) ++ m.byte (a.toNat + 2) ++ m.byte (a.toNat + 1) ++ m.byte a.toNat)
    else none := by
  unfold memoryReadU32 memoryWordSize
  split_ifs with h
  · rw [word_eq_append, toNat_address_add h (by decide : 1 < 4),
      toNat_address_add h (by decide : 2 < 4), toNat_address_add h (by decide : 3 < 4)]
  · rfl

theorem memoryWriteU16_eq (m : Memory) (a : BitVec 32) (v : BitVec 16) : memoryWriteU16 m a v =
    if memoryAccessValid m a 2 then some (m.splice a.toNat [v.setWidth 8, (v >>> 8).setWidth 8])
    else none := by
  unfold memoryWriteU16 memoryHalfwordSize
  split_ifs with h
  · rw [toNat_address_add h (by decide : 1 < 2), Memory.splice_cons, Memory.splice_cons,
      Memory.splice_nil]
  · rfl

theorem memoryWriteU32_eq (m : Memory) (a : BitVec 32) (v : BitVec 32) : memoryWriteU32 m a v =
    if memoryAccessValid m a 4 then
      some (m.splice a.toNat [v.setWidth 8, (v >>> 8).setWidth 8, (v >>> 16).setWidth 8,
        (v >>> 24).setWidth 8])
    else none := by
  unfold memoryWriteU32 memoryWordSize
  split_ifs with h
  · rw [toNat_address_add h (by decide : 1 < 4), toNat_address_add h (by decide : 2 < 4),
      toNat_address_add h (by decide : 3 < 4), Memory.splice_cons, Memory.splice_cons,
      Memory.splice_cons, Memory.splice_cons, Memory.splice_nil]
  · rfl

/-! ## The same accesses as numbers -/

theorem leBytes_one {w : ℕ} (v : BitVec w) : LittleEndian.bytes 1 v.toNat = [v.setWidth 8] := by
  rw [LittleEndian.bytes, LittleEndian.bytes]
  congr 1
  exact BitVec.eq_of_toNat_eq (by rw [BitVec.toNat_ofNat, BitVec.toNat_setWidth])

theorem leBytes_succ {w : ℕ} (n : ℕ) (v : BitVec w) : LittleEndian.bytes (n + 1) v.toNat =
    v.setWidth 8 :: LittleEndian.bytes n (v >>> 8).toNat := by
  rw [LittleEndian.bytes, BitVec.toNat_ushiftRight, Nat.shiftRight_eq_div_pow]
  congr 1
  exact BitVec.eq_of_toNat_eq (by rw [BitVec.toNat_ofNat, BitVec.toNat_setWidth])

theorem leBytes_two {w : ℕ} (v : BitVec w) :
    LittleEndian.bytes 2 v.toNat = [v.setWidth 8, (v >>> 8).setWidth 8] := by
  rw [leBytes_succ, leBytes_one]

theorem leBytes_four {w : ℕ} (v : BitVec w) : LittleEndian.bytes 4 v.toNat =
    [v.setWidth 8, (v >>> 8).setWidth 8, (v >>> 16).setWidth 8, (v >>> 24).setWidth 8] := by
  rw [leBytes_succ, leBytes_succ, leBytes_two, ← BitVec.shiftRight_add, ← BitVec.shiftRight_add]

namespace Memory

theorem value_slice_succ {m : Memory} (h : m.bytes.isSome) {a : ℕ} (n : ℕ) (ha : a < m.size) :
    LittleEndian.value (slice m.contents a (n + 1)) =
      (m.byte a).toNat + 256 * LittleEndian.value (slice m.contents (a + 1) n) := by
  rw [slice_succ _ 0 (by rwa [length_contents h]), LittleEndian.value]
  rfl

theorem value_slice_zero (m : Memory) (a : ℕ) :
    LittleEndian.value (slice m.contents a 0) = 0 := by
  rw [slice, List.take_zero, LittleEndian.value]

theorem value_slice_one {m : Memory} (h : m.bytes.isSome) {a : ℕ} (ha : a + 1 ≤ m.size) :
    LittleEndian.value (slice m.contents a 1) = (m.byte a).toNat := by
  rw [value_slice_succ h 0 (by omega), value_slice_zero, Nat.mul_zero, Nat.add_zero]

theorem value_slice_two {m : Memory} (h : m.bytes.isSome) {a : ℕ} (ha : a + 2 ≤ m.size) :
    LittleEndian.value (slice m.contents a 2) = (m.byte (a + 1) ++ m.byte a).toNat := by
  rw [value_slice_succ h 1 (by omega), value_slice_one h (by omega), toNat_append_byte]

theorem value_slice_four {m : Memory} (h : m.bytes.isSome) {a : ℕ} (ha : a + 4 ≤ m.size) :
    LittleEndian.value (slice m.contents a 4) =
      (m.byte (a + 3) ++ m.byte (a + 2) ++ m.byte (a + 1) ++ m.byte a).toNat := by
  rw [value_slice_succ h 3 (by omega), value_slice_succ h 2 (by omega),
    value_slice_succ h 1 (by omega), value_slice_one h (by omega), toNat_append_byte,
    toNat_append_byte, toNat_append_byte]

end Memory

end Riscv32
