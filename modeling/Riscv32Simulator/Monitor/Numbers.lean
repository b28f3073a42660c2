import Riscv32Simulator.Source.Monitor
import Riscv32Simulator.Source.MemoryLaws

/-! What `number` and `parse_ram_size` accept. -/

namespace Riscv32
open Numerals

/-! ## Characters -/

theorem isdigit_eq : ∀ c : BitVec 8, isdigit c = isDecimal c.toNat := by
  decide

theorem isxdigit_eq : ∀ c : BitVec 8, isxdigit c = isHex c.toNat := by
  decide

theorem isxdigit_plain : ∀ c : BitVec 8, isxdigit c = true →
    isspace c = false ∧ c ≠ 0x2B#8 ∧ c ≠ 0x2D#8 ∧ c ≠ 0x78#8 ∧ c ≠ 0x58#8 := by
  decide

theorem digitOfBase_isxdigit {base : ℕ} {c : BitVec 8} (h : digitOfBase base c = true) :
    isxdigit c = true := by
  unfold digitOfBase at h
  split_ifs at h
  · exact h
  · rw [isdigit_eq] at h
    rw [isxdigit_eq]
    exact isHex_of_isDecimal h

theorem strtoull_digits {text : CText} {base : ℕ} (hne : text ≠ [])
    (h : ∀ c ∈ text, digitOfBase base c = true) : strtoull text base =
      if value base (codes text) < 2 ^ 64 then (BitVec.ofNat 64 (value base (codes text)), false, [])
      else (BitVec.allOnes 64, true, []) := by
  cases text with
  | nil => exact absurd rfl hne
  | cons c rest =>
    obtain ⟨hspace, hplus, hminus, -, -⟩ := isxdigit_plain c (digitOfBase_isxdigit (h c (by simp)))
    have hskip : skipSpace (c :: rest) = c :: rest := by
      rw [skipSpace, List.dropWhile_cons, hspace]
      rfl
    have hsign : ¬ (c = 0x2D#8 ∨ c = 0x2B#8) := by tauto
    have hbase : skipPrefix (c :: rest) = c :: rest := by
      refine if_neg ?_
      rintro ⟨-, hx⟩
      cases rest with
      | nil => simp [firstChar] at hx
      | cons d rest =>
        obtain ⟨-, -, -, hx', hX'⟩ := isxdigit_plain d (digitOfBase_isxdigit (h d (by simp)))
        exact hx.elim hx' hX'
    have htake : (c :: rest).takeWhile (digitOfBase base) = c :: rest :=
      List.takeWhile_eq_self_iff.mpr h
    have hdrop : (c :: rest).dropWhile (digitOfBase base) = [] := List.dropWhile_eq_nil_iff.mpr h
    have hfirst : firstChar (c :: rest) = c := rfl
    unfold strtoull
    simp only [hskip, hfirst, if_neg hsign, hbase, ite_self, htake, hdrop, if_neg hne]
    rw [if_neg hminus]

/-! ## Numbers -/

theorem number_tail {text : CText} {base : ℕ} (hne : text ≠ [])
    (h : ∀ c ∈ text, digitOfBase base c = true) (maximum v : BitVec 64) :
    (if (strtoull text base).2.1 ∨ (strtoull text base).2.2 ≠ [] ∨ maximum < (strtoull text base).1
      then none else some (strtoull text base).1) = some v ↔
      value base (codes text) = v.toNat ∧ v.toNat ≤ maximum.toNat := by
  have hv := v.isLt
  rw [strtoull_digits hne h]
  by_cases hfit : value base (codes text) < 2 ^ 64
  · rw [if_pos hfit]
    have hnat : (BitVec.ofNat 64 (value base (codes text))).toNat = value base (codes text) :=
      (BitVec.toNat_ofNat _ _).trans (Nat.mod_eq_of_lt hfit)
    simp only [Bool.false_eq_true, ne_eq, not_true_eq_false, false_or, BitVec.lt_def, hnat,
      Option.ite_none_left_eq_some, not_lt, Option.some.injEq]
    constructor
    · rintro ⟨hle, rfl⟩
      rw [hnat]
      exact ⟨rfl, hle⟩
    · rintro ⟨hval, hle⟩
      refine ⟨hval ▸ hle, BitVec.eq_of_toNat_eq ?_⟩
      rw [hnat, hval]
  · rw [if_neg hfit]
    simp only [true_or, if_true, reduceCtorEq, false_iff]
    omega

theorem cons_cons_of_prefixed {text : CText} (h : firstChar text = 0x30#8 ∧
    (firstChar (text.drop 1) = 0x78#8 ∨ firstChar (text.drop 1) = 0x58#8)) :
    ∃ x rest, text = 0x30#8 :: x :: rest ∧ (x = 0x78#8 ∨ x = 0x58#8) := by
  obtain ⟨h0, hx⟩ := h
  cases text with
  | nil => simp [firstChar] at h0
  | cons c text =>
    cases text with
    | nil => simp [firstChar] at hx
    | cons x rest => exact ⟨x, rest, by rw [show c = 0x30#8 from h0], hx⟩

theorem all_codes (p : ℕ → Bool) (text : CText) :
    (∀ c ∈ codes text, p c = true) ↔ ∀ c ∈ text, p c.toNat = true := List.forall_mem_map

theorem codes_ne_nil {text : CText} : codes text ≠ [] ↔ text ≠ [] := by
  rw [codes, ne_eq, List.map_eq_nil_iff]

theorem numeral_prefixed {x : BitVec 8} (hx : x = 0x78#8 ∨ x = 0x58#8) (rest : CText) (v : ℕ) :
    Numeral (codes (0x30#8 :: x :: rest)) v ↔
      rest ≠ [] ∧ (∀ c ∈ rest, isxdigit c = true) ∧ value 16 (codes rest) = v := by
  have hx' : x.toNat = 0x78 ∨ x.toNat = 0x58 := by
    rcases hx with rfl | rfl
    · exact .inl rfl
    · exact .inr rfl
  simp only [isxdigit_eq]
  rw [← codes_ne_nil, ← all_codes isHex rest]
  constructor
  · intro h
    generalize hcs : codes (0x30#8 :: x :: rest) = cs at h
    cases h with
    | decimal _ hd =>
      have hdx := isHex_of_isDecimal (hd x.toNat (hcs ▸ by simp [codes]))
      rw [isHex_base hx'] at hdx
      cases hdx
    | @hex y ds _ hne hh =>
      obtain ⟨-, hds⟩ := List.cons_eq_cons.mp (List.cons_eq_cons.mp hcs).2
      have hds' : codes rest = ds := hds
      subst hds'
      exact ⟨hne, hh, rfl⟩
  · rintro ⟨hne, hh, rfl⟩
    exact .hex hx' hne hh

theorem numeral_unprefixed {text : CText} (h : ¬ (firstChar text = 0x30#8 ∧
    (firstChar (text.drop 1) = 0x78#8 ∨ firstChar (text.drop 1) = 0x58#8))) (v : ℕ) :
    Numeral (codes text) v ↔
      text ≠ [] ∧ (∀ c ∈ text, isdigit c = true) ∧ value 10 (codes text) = v := by
  simp only [isdigit_eq]
  rw [← codes_ne_nil, ← all_codes isDecimal text]
  constructor
  · intro hn
    generalize hcs : codes text = cs at hn
    cases hn with
    | decimal hne hd => exact ⟨hne, hd, rfl⟩
    | @hex x ds hx _ _ =>
      refine absurd ?_ h
      cases text with
      | nil => simp [codes] at hcs
      | cons c text =>
        cases text with
        | nil => simp [codes] at hcs
        | cons d text =>
          simp only [codes, List.map_cons, List.cons.injEq] at hcs
          obtain ⟨hc, rfl, -⟩ := hcs
          refine ⟨BitVec.eq_of_toNat_eq hc, ?_⟩
          exact hx.imp (fun h => BitVec.eq_of_toNat_eq h) fun h => BitVec.eq_of_toNat_eq h
  · rintro ⟨hne, hd, rfl⟩
    exact .decimal hne hd

theorem number_prefixed {x : BitVec 8} (hx : x = 0x78#8 ∨ x = 0x58#8) (rest : CText)
    (maximum v : BitVec 64) : number (0x30#8 :: x :: rest) maximum = some v ↔
      rest ≠ [] ∧ (∀ c ∈ rest, isxdigit c = true) ∧ value 16 (codes rest) = v.toNat ∧
        v.toNat ≤ maximum.toNat := by
  have hbase : (firstChar (0x30#8 :: x :: rest) = 0x30#8 ∧
      (firstChar ((0x30#8 :: x :: rest).drop 1) = 0x78#8 ∨
        firstChar ((0x30#8 :: x :: rest).drop 1) = 0x58#8)) = True := eq_true ⟨rfl, hx⟩
  have hstart : ¬ (0x30#8 :: x :: rest = [] ∨ firstChar (0x30#8 :: x :: rest) = 0x2B#8 ∨
      firstChar (0x30#8 :: x :: rest) = 0x2D#8 ∨ isspace (firstChar (0x30#8 :: x :: rest))) := by
    simp [firstChar, isspace]
  have hrest : (0x30#8 :: x :: rest).drop 2 = rest := rfl
  unfold number
  rw [if_neg hstart]
  simp only [hbase, if_true, true_and, hrest]
  rw [Option.ite_none_left_eq_some, Option.ite_none_left_eq_some, not_not, not_not, List.all_eq_true]
  constructor
  · rintro ⟨hfirst, hhex, htail⟩
    have hne : rest ≠ [] := by
      rintro rfl
      exact absurd hfirst (by decide)
    exact ⟨hne, hhex, (number_tail hne hhex maximum v).mp htail⟩
  · rintro ⟨hne, hhex, htail⟩
    have hfirst : isxdigit (firstChar rest) = true := by
      cases rest with
      | nil => exact absurd rfl hne
      | cons c rest => exact hhex c (by simp)
    have hdigits : ∀ c ∈ rest, digitOfBase 16 c = true := hhex
    exact ⟨hfirst, hdigits, (number_tail hne hdigits maximum v).mpr htail⟩

theorem isdigit_plain : ∀ c : BitVec 8, isdigit c = true →
    c ≠ 0x2B#8 ∧ c ≠ 0x2D#8 ∧ isspace c = false := by
  decide

theorem number_unprefixed {text : CText} (h : ¬ (firstChar text = 0x30#8 ∧
    (firstChar (text.drop 1) = 0x78#8 ∨ firstChar (text.drop 1) = 0x58#8))) (maximum v : BitVec 64) :
    number text maximum = some v ↔
      text ≠ [] ∧ (∀ c ∈ text, isdigit c = true) ∧ value 10 (codes text) = v.toNat ∧
        v.toNat ≤ maximum.toNat := by
  unfold number
  rw [Option.ite_none_left_eq_some]
  simp only [eq_false h, if_false, false_and]
  rw [Option.ite_none_left_eq_some, not_not, List.all_eq_true]
  constructor
  · rintro ⟨hstart, hdec, htail⟩
    have hne : text ≠ [] := fun hnil => hstart (.inl hnil)
    exact ⟨hne, hdec, (number_tail hne hdec maximum v).mp htail⟩
  · rintro ⟨hne, hdec, htail⟩
    have hdigits : ∀ c ∈ text, digitOfBase 10 c = true := hdec
    refine ⟨?_, hdigits, (number_tail hne hdigits maximum v).mpr htail⟩
    cases text with
    | nil => exact absurd rfl hne
    | cons c text =>
      obtain ⟨hplus, hminus, hspace⟩ := isdigit_plain c (hdec c (by simp))
      have hfirst : firstChar (c :: text) = c := rfl
      simp [hfirst, hplus, hminus, hspace]

theorem number_iff (text : CText) (maximum v : BitVec 64) :
    number text maximum = some v ↔ Numeral (codes text) v.toNat ∧ v.toNat ≤ maximum.toNat := by
  by_cases h : firstChar text = 0x30#8 ∧
      (firstChar (text.drop 1) = 0x78#8 ∨ firstChar (text.drop 1) = 0x58#8)
  · obtain ⟨x, rest, rfl, hx⟩ := cons_cons_of_prefixed h
    rw [number_prefixed hx, numeral_prefixed hx, and_assoc, and_assoc]
  · rw [number_unprefixed h, numeral_unprefixed h, and_assoc, and_assoc]

/-! ## Sizes -/

def sizeUnits : List (CText × ℕ) :=
  [([0x42#8], 1), ([0x4B#8, 0x69#8, 0x42#8], 1024), ([0x4D#8, 0x69#8, 0x42#8], 1024 * 1024)]

structure SizeText (text numeral : CText) (v factor : ℕ) : Prop where
  split : ∃ suffix, text = numeral ++ suffix ∧ (suffix, factor) ∈ sizeUnits
  numeral : Numeral (codes numeral) v

theorem SizeText.ne_nil {text numeral : CText} {v factor : ℕ} (h : SizeText text numeral v factor) :
    numeral ≠ [] := by
  rintro rfl
  obtain ⟨c, hc, -⟩ := h.numeral.getLast?
  simp [codes] at hc

theorem not_drop_unit {text numeral : CText} {v : ℕ} (hn : Numeral (codes numeral) v)
    (htext : text = numeral ++ [0x42#8]) (a : BitVec 8) :
    ¬ (text.length > 3 ∧ text.drop (text.length - 3) = [a, 0x69#8, 0x42#8]) := by
  rintro ⟨-, hdrop⟩
  have hsplit := List.take_append_drop (text.length - 3) text
  rw [hdrop, htext, show [a, 0x69#8, 0x42#8] = [a, 0x69#8] ++ [0x42#8] from rfl, ← List.append_assoc]
    at hsplit
  have hnum := List.append_cancel_right hsplit
  obtain ⟨c, hc, hhex⟩ := hn.getLast?
  rw [← hnum, codes, List.map_append, List.getLast?_append] at hc
  obtain rfl : 0x69 = c := by simpa using hc
  exact absurd hhex (by decide)

theorem drop_suffix (numeral suffix : CText) :
    (numeral ++ suffix).drop ((numeral ++ suffix).length - suffix.length) = suffix ∧
      (numeral ++ suffix).take ((numeral ++ suffix).length - suffix.length) = numeral := by
  have hlen : (numeral ++ suffix).length - suffix.length = numeral.length := by
    rw [List.length_append, Nat.add_sub_cancel]
  rw [hlen]
  exact ⟨List.drop_left, List.take_left⟩

theorem ramSizeUnit_of_sizeText {text numeral : CText} {v factor : ℕ}
    (h : SizeText text numeral v factor) : ∃ n, ramSizeUnit text = some (factor, n) ∧
      text.length - n = numeral.length ∧ text.take (text.length - n) = numeral := by
  have hpos := List.length_pos_iff.mpr h.ne_nil
  obtain ⟨⟨suffix, htext, hunit⟩, hn⟩ := h
  obtain ⟨hdrop, htake⟩ := drop_suffix numeral suffix
  rw [← htext] at hdrop htake
  have hlen : text.length = numeral.length + suffix.length := by rw [htext, List.length_append]
  simp only [sizeUnits, List.mem_cons, Prod.mk.injEq, List.not_mem_nil, or_false] at hunit
  unfold ramSizeUnit
  dsimp only
  rcases hunit with ⟨rfl, rfl⟩ | ⟨rfl, rfl⟩ | ⟨rfl, rfl⟩
  · rw [if_neg (not_drop_unit hn htext 0x4B#8), if_neg (not_drop_unit hn htext 0x4D#8),
      if_pos ⟨by simp at hlen; omega, hdrop⟩]
    exact ⟨1, rfl, by simp at hlen; omega, htake⟩
  · rw [if_pos ⟨by simp at hlen; omega, hdrop⟩]
    exact ⟨3, rfl, by simp at hlen; omega, htake⟩
  · have hnot : ¬ (text.length > 3 ∧ text.drop (text.length - 3) = [0x4B#8, 0x69#8, 0x42#8]) := by
      rintro ⟨-, hdrop'⟩
      have heq : [0x4D#8, 0x69#8, 0x42#8] = [0x4B#8, 0x69#8, 0x42#8] := hdrop.symm.trans hdrop'
      exact absurd heq (by decide)
    rw [if_neg hnot, if_pos ⟨by simp at hlen; omega, hdrop⟩]
    exact ⟨3, rfl, by simp at hlen; omega, htake⟩

theorem split_of_ramSizeUnit {text : CText} {factor n : ℕ} (h : ramSizeUnit text = some (factor, n)) :
    ∃ suffix, text = text.take (text.length - n) ++ suffix ∧ (suffix, factor) ∈ sizeUnits := by
  unfold ramSizeUnit at h
  refine ⟨text.drop (text.length - n), (List.take_append_drop _ _).symm, ?_⟩
  dsimp only at h
  split_ifs at h with h1 h2 h3
  · obtain ⟨rfl, rfl⟩ := Prod.mk.inj (Option.some.inj h)
    rw [h1.2]
    decide
  · obtain ⟨rfl, rfl⟩ := Prod.mk.inj (Option.some.inj h)
    rw [h2.2]
    decide
  · obtain ⟨rfl, rfl⟩ := Prod.mk.inj (Option.some.inj h)
    rw [h3.2]
    decide

theorem factor_cases {suffix : CText} {factor : ℕ} (h : (suffix, factor) ∈ sizeUnits) :
    factor = 1 ∨ factor = 1024 ∨ factor = 1048576 := by
  simp only [sizeUnits, List.mem_cons, Prod.mk.injEq, List.not_mem_nil, or_false] at h
  tauto

theorem amount_of_factor {factor : ℕ} (h : factor = 1 ∨ factor = 1024 ∨ factor = 1048576) :
    (BitVec.ofNat 64 (memoryMaxSize / factor)).toNat = memoryMaxSize / factor ∧
      ∀ v, v ≤ memoryMaxSize / factor ↔ v * factor ≤ memoryMaxSize := by
  constructor
  · rcases h with rfl | rfl | rfl <;> decide
  · have hpos : 0 < factor := by omega
    exact fun v => Nat.le_div_iff_mul_le hpos

theorem sizeText_of_parseRamSize {text : CText} {size : ℕ} (h : parseRamSize text = some size) :
    ∃ numeral v factor, SizeText text numeral v factor ∧ numeral.length ≤ 31 ∧ size = v * factor ∧
      memorySizeValid size = true := by
  have hmax : memoryMaxSize < 2 ^ 64 := by decide
  unfold parseRamSize at h
  cases hunit : ramSizeUnit text with
  | none =>
    rw [hunit] at h
    cases h
  | some unit =>
    obtain ⟨factor, n⟩ := unit
    obtain ⟨suffix, hsplit, hmem⟩ := split_of_ramSizeUnit hunit
    obtain ⟨hnat, hle⟩ := amount_of_factor (factor_cases hmem)
    rw [hunit] at h
    dsimp only at h
    rw [Option.ite_none_left_eq_some] at h
    obtain ⟨hcount, h⟩ := h
    cases hnumber : number (text.take (text.length - n)) (BitVec.ofNat 64 (memoryMaxSize / factor)) with
    | none =>
      rw [hnumber] at h
      cases h
    | some amount =>
      rw [hnumber] at h
      obtain ⟨hnum, hbound⟩ := (number_iff _ _ _).mp hnumber
      rw [hnat, hle] at hbound
      dsimp only at h
      rw [Nat.mod_eq_of_lt (by omega), Option.ite_none_right_eq_some, Option.some.injEq] at h
      refine ⟨_, amount.toNat, factor, ⟨⟨suffix, hsplit, hmem⟩, hnum⟩, ?_, h.2.symm, h.2 ▸ h.1⟩
      rw [List.length_take]
      omega

theorem parseRamSize_of_sizeText {text numeral : CText} {v factor : ℕ}
    (htext : SizeText text numeral v factor) (hlen : numeral.length ≤ 31)
    (hvalid : memorySizeValid (v * factor) = true) : parseRamSize text = some (v * factor) := by
  have hmax : memoryMaxSize < 2 ^ 64 := by decide
  obtain ⟨n, hunit, hcount, htake⟩ := ramSizeUnit_of_sizeText htext
  obtain ⟨suffix, -, hmem⟩ := htext.split
  obtain ⟨hnat, hle⟩ := amount_of_factor (factor_cases hmem)
  have hsize : v * factor ≤ memoryMaxSize := ((memorySizeValid_iff _).mp hvalid).2.1
  have hv := (hle v).mpr hsize
  have hv64 : v < 2 ^ 64 := lt_of_le_of_lt (hv.trans (Nat.div_le_self _ _)) hmax
  have hvnat : (BitVec.ofNat 64 v).toNat = v := (BitVec.toNat_ofNat _ _).trans (Nat.mod_eq_of_lt hv64)
  have hnumber : number numeral (BitVec.ofNat 64 (memoryMaxSize / factor)) =
      some (BitVec.ofNat 64 v) := by
    rw [number_iff, hvnat, hnat]
    exact ⟨htext.numeral, hv⟩
  unfold parseRamSize
  rw [hunit]
  dsimp only
  rw [hcount, if_neg (by omega), ← hcount, htake, hnumber]
  dsimp only
  rw [hvnat, Nat.mod_eq_of_lt (by omega), if_pos hvalid]

theorem parseRamSize_iff (text : CText) (size : ℕ) : parseRamSize text = some size ↔
    ∃ numeral v factor, SizeText text numeral v factor ∧ numeral.length ≤ 31 ∧ size = v * factor ∧
      memorySizeValid size = true := by
  constructor
  · exact sizeText_of_parseRamSize
  · rintro ⟨numeral, v, factor, htext, hlen, rfl, hvalid⟩
    exact parseRamSize_of_sizeText htext hlen hvalid

end Riscv32
