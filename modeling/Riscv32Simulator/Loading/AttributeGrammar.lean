import Riscv32Simulator.Library.Leb128
import Riscv32Simulator.Library.LittleEndian
import Riscv32Simulator.Library.Tiling
import Riscv32Simulator.Source.Elf

/-! The layout of a RISC-V attribute section, and what it may ask of the machine. The grammar is
over any layout of numbers that can be told from their first bytes on. -/

namespace Riscv32
open Tiling

def Uleb32 (bs : List (BitVec 8)) (v : ℕ) : Prop :=
  Leb128.Encodes bs v ∧ bs.length ≤ 5 ∧ v < 2 ^ 32

inductive AttributeValue
  | text (s : List (BitVec 8))
  | number (v : ℕ)
deriving DecidableEq, Repr

section Grammar

variable (Number : List (BitVec 8) → ℕ → Prop)

/-- A tag and its value: a text that a null byte ends for odd tags, a number for even ones. -/
inductive Entry : List (BitVec 8) → ℕ → AttributeValue → Prop
  | text {tag s : List (BitVec 8)} {t : ℕ} :
    Number tag t → t % 2 = 1 → 0 ∉ s → Entry (tag ++ (s ++ [0])) t (.text s)
  | number {tag bs : List (BitVec 8)} {t v : ℕ} :
    Number tag t → t % 2 = 0 → Number bs v → Entry (tag ++ bs) t (.number v)

/-- Only the architecture, the stack alignment and unaligned access are looked at. -/
def Compatible (tag : ℕ) : AttributeValue → Prop
  | .text s => tag = 5 → s ∈ [archRv32i2p1, archRv32i2p0, archRv32i]
  | .number v => (tag = 4 → v = 16) ∧ (tag = 6 → v = 0)

def Attribute (piece : List (BitVec 8)) : Prop :=
  ∃ tag value, Entry Number piece tag value ∧ Compatible tag value

/-- Attributes of the whole file, with a size that counts from the scope on. -/
def Block (piece : List (BitVec 8)) : Prop :=
  ∃ scope size body, piece = scope ++ (size ++ body) ∧ Number scope 1 ∧ size.length = 4 ∧
    LittleEndian.value size = piece.length ∧ Tiles (Attribute Number) body

/-- The section of one vendor, with a length that counts itself. -/
def Subsection (piece : List (BitVec 8)) : Prop :=
  ∃ length vendor body, piece = length ++ (vendor ++ 0 :: body) ∧ length.length = 4 ∧
    LittleEndian.value length = piece.length ∧ 0 ∉ vendor ∧
    (vendor = vendorRiscv → Tiles (Block Number) body)

def AttributeSection (bytes : List (BitVec 8)) : Prop :=
  ∃ rest, bytes = 0x41#8 :: rest ∧ Tiles (Subsection Number) rest

structure SelfDelimiting : Prop where
  unique : ∀ {as bs x y v w}, Number as v → Number bs w → as ++ x = bs ++ y → as = bs ∧ v = w
  nonempty : ∀ {v}, ¬ Number [] v

end Grammar

theorem uleb32_selfDelimiting : SelfDelimiting Uleb32 where
  unique ha hb h := ha.1.unique hb.1 h
  nonempty h := Leb128.not_encodes_nil _ h.1

theorem text_unique {s t x y : List (BitVec 8)} (hs : 0 ∉ s) (ht : 0 ∉ t)
    (h : s ++ 0 :: x = t ++ 0 :: y) : s = t ∧ x = y := by
  induction s generalizing t with
  | nil =>
    cases t with
    | nil => exact ⟨rfl, (List.cons.inj h).2⟩
    | cons b t => exact absurd (List.mem_cons.mpr (.inl (List.cons.inj h).1)) ht
  | cons a s ih =>
    cases t with
    | nil => exact absurd (List.mem_cons.mpr (.inl (List.cons.inj h).1.symm)) hs
    | cons b t =>
      obtain ⟨rfl, hrest⟩ := List.cons.inj h
      obtain ⟨rfl, hxy⟩ := ih (fun hc => hs (List.mem_cons_of_mem _ hc))
        (fun hc => ht (List.mem_cons_of_mem _ hc)) hrest
      exact ⟨rfl, hxy⟩

section Pieces

variable {Number : List (BitVec 8) → ℕ → Prop}

/-! ## Attributes -/

theorem compatible_of_unknown {tag : ℕ} (h4 : tag ≠ 4) (h5 : tag ≠ 5) (h6 : tag ≠ 6)
    (value : AttributeValue) : Compatible tag value := by
  cases value with
  | text s => exact fun h => absurd h h5
  | number v => exact ⟨fun h => absurd h h4, fun h => absurd h h6⟩

variable (hN : SelfDelimiting Number)
include hN

theorem Entry.after_tag {piece r tag w : List (BitVec 8)} {t t' : ℕ} {value : AttributeValue}
    (h : Entry Number piece t' value) (htag : Number tag t) (heq : piece ++ r = tag ++ w) :
    t' = t ∧ ((t % 2 = 1 ∧ ∃ s, value = .text s ∧ piece = tag ++ (s ++ [0]) ∧ 0 ∉ s ∧
        w = s ++ 0 :: r) ∨
      (t % 2 = 0 ∧ ∃ bs v, value = .number v ∧ piece = tag ++ bs ∧ Number bs v ∧ w = bs ++ r)) := by
  cases h with
  | @text tag' s t' htag' hodd hs =>
    rw [List.append_assoc] at heq
    obtain ⟨rfl, rfl⟩ := hN.unique htag' htag heq
    refine ⟨rfl, .inl ⟨hodd, s, rfl, rfl, hs, ?_⟩⟩
    rw [← List.append_cancel_left heq, List.append_assoc]
    rfl
  | @number tag' bs t' v htag' heven hv =>
    rw [List.append_assoc] at heq
    obtain ⟨rfl, rfl⟩ := hN.unique htag' htag heq
    exact ⟨rfl, .inr ⟨heven, bs, v, rfl, rfl, hv, (List.append_cancel_left heq).symm⟩⟩

omit hN in
theorem begins_attribute {w : List (BitVec 8)} (h : Begins (Attribute Number) w) :
    ∃ tag t x, w = tag ++ x ∧ Number tag t := by
  obtain ⟨piece, x, rfl, t, v, hentry, -⟩ := h
  cases hentry with
  | text htag => exact ⟨_, _, _, List.append_assoc .., htag⟩
  | number htag => exact ⟨_, _, _, List.append_assoc .., htag⟩

theorem begins_attribute_odd {tag w : List (BitVec 8)} {t : ℕ} (htag : Number tag t)
    (hodd : t % 2 = 1) : Begins (Attribute Number) (tag ++ w) ↔
      ∃ s x, w = s ++ 0 :: x ∧ 0 ∉ s ∧ Compatible t (.text s) := by
  constructor
  · rintro ⟨piece, x, hwin, u, v, hentry, hcompat⟩
    obtain ⟨rfl, ⟨-, s, rfl, -, hs, hw⟩ | ⟨heven, -⟩⟩ := hentry.after_tag hN htag hwin.symm
    · exact ⟨s, x, hw, hs, hcompat⟩
    · omega
  · rintro ⟨s, x, rfl, hs, hcompat⟩
    refine ⟨tag ++ (s ++ [0]), x, ?_, t, _, .text htag hodd hs, hcompat⟩
    rw [List.append_assoc, List.append_assoc]
    rfl

theorem begins_attribute_even {tag w : List (BitVec 8)} {t : ℕ} (htag : Number tag t)
    (heven : t % 2 = 0) : Begins (Attribute Number) (tag ++ w) ↔
      ∃ bs v x, w = bs ++ x ∧ Number bs v ∧ Compatible t (.number v) := by
  constructor
  · rintro ⟨piece, x, hwin, u, v, hentry, hcompat⟩
    obtain ⟨rfl, ⟨hodd, -⟩ | ⟨-, bs, v, rfl, -, hv, hw⟩⟩ := hentry.after_tag hN htag hwin.symm
    · omega
    · exact ⟨bs, v, x, hw, hv, hcompat⟩
  · rintro ⟨bs, v, x, rfl, hv, hcompat⟩
    exact ⟨tag ++ bs, x, (List.append_assoc ..).symm, t, _, .number htag heven hv, hcompat⟩

theorem Entry.unique {a b x y : List (BitVec 8)} {t u : ℕ} {v w : AttributeValue}
    (ha : Entry Number a t v) (hb : Entry Number b u w) (h : a ++ x = b ++ y) :
    a = b ∧ t = u ∧ v = w := by
  cases hb with
  | @text tag s u htag hodd hs =>
    rw [List.append_assoc] at h
    obtain ⟨rfl, ⟨-, s', rfl, rfl, hs', heq⟩ | ⟨heven, -⟩⟩ := ha.after_tag hN htag h
    · rw [List.append_assoc] at heq
      obtain ⟨rfl, -⟩ := text_unique hs hs' heq
      exact ⟨rfl, rfl, rfl⟩
    · omega
  | @number tag bs u v' htag heven hv =>
    rw [List.append_assoc] at h
    obtain ⟨rfl, ⟨hodd, -⟩ | ⟨-, bs', w, rfl, rfl, hw, heq⟩⟩ := ha.after_tag hN htag h
    · omega
    · obtain ⟨rfl, rfl⟩ := hN.unique hv hw heq
      exact ⟨rfl, rfl, rfl⟩

theorem attribute_prefixFree : PrefixFree (Attribute Number) := by
  rintro a b ⟨t, v, ha, -⟩ ⟨u, w, hb, -⟩ x y h
  exact (ha.unique hN hb h).1

theorem attribute_nonempty : ¬ Attribute Number [] := by
  rintro ⟨t, v, h, -⟩
  generalize hxs : ([] : List (BitVec 8)) = xs at h
  cases h with
  | text htag =>
    obtain ⟨rfl, -⟩ := List.append_eq_nil_iff.mp hxs.symm
    exact hN.nonempty htag
  | number htag =>
    obtain ⟨rfl, -⟩ := List.append_eq_nil_iff.mp hxs.symm
    exact hN.nonempty htag

/-! ## Blocks and subsections -/

theorem block_prefixFree : PrefixFree (Block Number) := by
  rintro a b ⟨scope, size, body, ha, hscope, hsize, hlen, -⟩
    ⟨scope', size', body', hb, hscope', hsize', hlen', -⟩ x y h
  have hh := h
  simp only [ha, hb, List.append_assoc] at hh
  obtain ⟨rfl, -⟩ := hN.unique hscope hscope' hh
  obtain ⟨rfl, -⟩ := List.append_inj (List.append_cancel_left hh) (hsize.trans hsize'.symm)
  exact (List.append_inj h (hlen.symm.trans hlen')).1

theorem block_nonempty : ¬ Block Number [] := by
  rintro ⟨scope, size, body, h, hscope, -⟩
  obtain ⟨rfl, -⟩ := List.append_eq_nil_iff.mp h.symm
  exact hN.nonempty hscope

theorem begins_block {scope w : List (BitVec 8)} {t : ℕ} (hscope : Number scope t) :
    Begins (Block Number) (scope ++ w) ↔ t = 1 ∧ ∃ size body x, w = size ++ (body ++ x) ∧
      size.length = 4 ∧ LittleEndian.value size = scope.length + 4 + body.length ∧
      Tiles (Attribute Number) body := by
  constructor
  · rintro ⟨piece, x, hwin, scope', size, body, rfl, hscope', hsize, hlen, hbody⟩
    rw [List.append_assoc] at hwin
    obtain ⟨rfl, rfl⟩ := hN.unique hscope hscope' hwin
    refine ⟨rfl, size, body, x, ?_, hsize, ?_, hbody⟩
    · rw [List.append_cancel_left hwin, List.append_assoc]
    · rw [hlen, List.length_append, List.length_append, hsize]
      omega
  · rintro ⟨rfl, size, body, x, rfl, hsize, hlen, hbody⟩
    refine ⟨scope ++ (size ++ body), x, ?_, scope, size, body, rfl, hscope, hsize, ?_, hbody⟩
    · rw [List.append_assoc, List.append_assoc]
    · rw [hlen, List.length_append, List.length_append, hsize]
      omega

omit hN in
theorem subsection_prefixFree : PrefixFree (Subsection Number) := by
  rintro a b ⟨length, vendor, body, ha, hlength, hlen, -⟩
    ⟨length', vendor', body', hb, hlength', hlen', -⟩ x y h
  have hh := h
  simp only [ha, hb, List.append_assoc] at hh
  obtain ⟨rfl, -⟩ := List.append_inj hh (hlength.trans hlength'.symm)
  exact (List.append_inj h (hlen.symm.trans hlen')).1

omit hN in
theorem subsection_nonempty : ¬ Subsection Number [] := by
  rintro ⟨length, vendor, body, h, hlength, -⟩
  obtain ⟨rfl, -⟩ := List.append_eq_nil_iff.mp h.symm
  exact absurd hlength (by decide)

end Pieces

end Riscv32
