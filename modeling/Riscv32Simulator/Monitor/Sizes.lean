import Riscv32Simulator.Monitor.Numbers
import Riscv32Simulator.Source.BuildGuest

/-! The RAM sizes of the monitor and of the guest builder. -/

namespace Riscv32
open Numerals BuildGuest

/-! ## The pattern of the builder -/

theorem isDigits_iff (cs : List ℕ) : isDigits cs = true ↔ ∃ v, Numeral cs v := by
  unfold isDigits
  simp only [Bool.or_eq_true, Bool.and_eq_true, decide_eq_true_eq, List.all_eq_true]
  constructor
  · rintro (⟨⟨⟨h0, hx⟩, hne⟩, hh⟩ | ⟨hne, hd⟩)
    · rcases cs with _ | ⟨c, _ | ⟨x, cs⟩⟩
      · simp at h0
      · simp at hx
      · obtain rfl : c = 0x30 := by simpa using h0
        have hx' : x = 0x78 ∨ x = 0x58 := by simpa using hx
        exact ⟨_, .hex hx' hne hh⟩
    · exact ⟨_, .decimal hne hd⟩
  · rintro ⟨v, h⟩
    cases h with
    | decimal hne hd => exact .inr ⟨hne, hd⟩
    | hex hx hne hh => exact .inl ⟨⟨⟨rfl, by simpa using hx⟩, hne⟩, hh⟩

theorem intOf_eq {cs : List ℕ} {v : ℕ} (h : Numeral cs v) (hlen : cs.length ≤ maxStrDigits) :
    intOf cs = some v := by
  unfold intOf
  cases h with
  | @decimal cs hne hd =>
    rw [if_neg, if_neg (not_lt.mpr hlen)]
    rintro ⟨-, hx⟩
    rcases cs with _ | ⟨c, _ | ⟨x, cs⟩⟩
    · exact hne rfl
    · simp at hx
    · have hdx := isHex_of_isDecimal (hd x (by simp))
      rw [isHex_base (by simpa using hx)] at hdx
      cases hdx
  | @hex x cs hx hne hh => exact if_pos ⟨rfl, by simpa using hx⟩

theorem split_unique {ds ds' unit unit' : List ℕ} {v v' factor factor' : ℕ} (hn : Numeral ds v)
    (hn' : Numeral ds' v') (hu : (unit, factor) ∈ units) (hu' : (unit', factor') ∈ units)
    (h : ds ++ unit = ds' ++ unit') : ds = ds' ∧ factor = factor' := by
  -- a numeral does not end in the `i` of a larger unit
  have hlast : ∀ {as bs : List ℕ} {v a : ℕ}, Numeral as v → as ++ [0x42] ≠ bs ++ [a, 0x69, 0x42] := by
    intro as bs v a hn hsplit
    rw [show [a, 0x69, 0x42] = [a, 0x69] ++ [0x42] from rfl, ← List.append_assoc] at hsplit
    obtain ⟨c, hc, hhex⟩ := hn.getLast?
    rw [List.append_cancel_right hsplit, List.getLast?_append] at hc
    obtain rfl : 0x69 = c := by simpa using hc
    exact absurd hhex (by decide)
  simp only [units, List.mem_cons, Prod.mk.injEq, List.not_mem_nil, or_false] at hu hu'
  rcases hu with ⟨rfl, rfl⟩ | ⟨rfl, rfl⟩ | ⟨rfl, rfl⟩ <;>
    rcases hu' with ⟨rfl, rfl⟩ | ⟨rfl, rfl⟩ | ⟨rfl, rfl⟩
  · exact ⟨List.append_cancel_right h, rfl⟩
  · exact absurd h (hlast hn)
  · exact absurd h (hlast hn)
  · exact absurd h.symm (hlast hn')
  · exact ⟨List.append_cancel_right h, rfl⟩
  · exact absurd (List.append_inj' h rfl).2 (by decide)
  · exact absurd h.symm (hlast hn')
  · exact absurd (List.append_inj' h rfl).2 (by decide)
  · exact ⟨List.append_cancel_right h, rfl⟩

theorem fullmatch_iff (text digits : List ℕ) (factor : ℕ) : fullmatch text = some (digits, factor) ↔
    ∃ unit v, text = digits ++ unit ∧ (unit, factor) ∈ units ∧ Numeral digits v := by
  have hfound : ∀ {ds f}, fullmatch text = some (ds, f) →
      ∃ unit v, text = ds ++ unit ∧ (unit, f) ∈ units ∧ Numeral ds v := by
    intro ds f h
    obtain ⟨⟨unit, f'⟩, hmem, hsome⟩ := List.exists_of_findSome?_eq_some h
    dsimp only at hsome
    rw [Option.ite_none_right_eq_some, Option.some.injEq, Prod.mk.injEq] at hsome
    obtain ⟨⟨hsplit, hdigits⟩, rfl, rfl⟩ := hsome
    obtain ⟨v, hv⟩ := (isDigits_iff _).mp hdigits
    exact ⟨unit, v, hsplit, hmem, hv⟩
  refine ⟨hfound, ?_⟩
  rintro ⟨unit, v, rfl, hmem, hn⟩
  have htake : (digits ++ unit).take ((digits ++ unit).length - unit.length) = digits := by
    rw [List.length_append, Nat.add_sub_cancel, List.take_left]
  have hsome : (fullmatch (digits ++ unit)).isSome = true := by
    rw [fullmatch, List.findSome?_isSome_iff]
    refine ⟨(unit, factor), hmem, ?_⟩
    dsimp only
    rw [htake, if_pos ⟨rfl, (isDigits_iff digits).mpr ⟨v, hn⟩⟩]
    rfl
  obtain ⟨⟨ds, f⟩, hds⟩ := Option.isSome_iff_exists.mp hsome
  obtain ⟨unit', v', hsplit, hmem', hn'⟩ := hfound hds
  obtain ⟨rfl, rfl⟩ := split_unique hn hn' hmem hmem' hsplit
  exact hds

theorem units_eq : units = sizeUnits.map fun u => (codes u.1, u.2) := by
  decide

theorem codes_injective : Function.Injective codes :=
  List.map_injective_iff.mpr fun _ _ h => BitVec.eq_of_toNat_eq h

theorem fullmatch_codes (text : CText) (digits : List ℕ) (factor : ℕ) :
    fullmatch (codes text) = some (digits, factor) ↔
      ∃ numeral v, digits = codes numeral ∧ SizeText text numeral v factor := by
  rw [fullmatch_iff]
  constructor
  · rintro ⟨unit, v, hsplit, hmem, hn⟩
    rw [codes, List.map_eq_append_iff] at hsplit
    obtain ⟨numeral, suffix, rfl, rfl, rfl⟩ := hsplit
    rw [units_eq, List.mem_map] at hmem
    obtain ⟨⟨suffix', f⟩, hmem, heq⟩ := hmem
    obtain ⟨hsuffix, rfl⟩ := Prod.mk.inj heq
    obtain rfl := codes_injective hsuffix
    exact ⟨numeral, v, rfl, ⟨⟨_, rfl, hmem⟩, hn⟩⟩
  · rintro ⟨numeral, v, rfl, ⟨⟨suffix, rfl, hmem⟩, hn⟩⟩
    refine ⟨codes suffix, v, List.map_append, ?_, hn⟩
    rw [units_eq]
    exact List.mem_map.mpr ⟨_, hmem, rfl⟩

theorem sizeBytes_iff {text : CText}
    (hlen : ∀ numeral v factor, SizeText text numeral v factor → numeral.length ≤ maxStrDigits) (size : ℕ) :
    sizeBytes (codes text) = some size ↔ ∃ numeral v factor, SizeText text numeral v factor ∧
      size = v * factor ∧ 16 ≤ size ∧ size ≤ maxRam ∧ size % 16 = 0 := by
  have hint {numeral : CText} {v factor : ℕ} (h : SizeText text numeral v factor) :
      intOf (codes numeral) = some v := by
    refine intOf_eq h.numeral ?_
    rw [codes, List.length_map]
    exact hlen numeral v factor h
  unfold sizeBytes
  constructor
  · intro h
    cases hmatch : fullmatch (codes text) with
    | none =>
      rw [hmatch] at h
      cases h
    | some groups =>
      obtain ⟨digits, factor⟩ := groups
      obtain ⟨numeral, v, rfl, htext⟩ := (fullmatch_codes text digits factor).mp hmatch
      rw [hmatch] at h
      dsimp only at h
      rw [hint htext] at h
      dsimp only at h
      rw [Option.ite_none_left_eq_some, Option.some.injEq] at h
      obtain ⟨hrange, rfl⟩ := h
      exact ⟨numeral, v, factor, htext, rfl, by omega, by omega, by omega⟩
  · rintro ⟨numeral, v, factor, htext, rfl, hlow, hhigh, hal⟩
    rw [(fullmatch_codes text (codes numeral) factor).mpr ⟨numeral, v, rfl, htext⟩]
    dsimp only
    rw [hint htext]
    dsimp only
    rw [if_neg (by omega)]

theorem sizeBytes_ascii {s : List ℕ} {size : ℕ} (h : sizeBytes s = some size) : ∃ text, s = codes text := by
  unfold sizeBytes at h
  cases hmatch : fullmatch s with
  | none =>
    rw [hmatch] at h
    cases h
  | some groups =>
    obtain ⟨unit, v, rfl, hmem, hn⟩ := (fullmatch_iff s groups.1 groups.2).mp hmatch
    have hunits : ∀ u ∈ units, ∀ c ∈ u.1, c < 128 := by decide
    refine ⟨(groups.1 ++ unit).map (BitVec.ofNat 8), ?_⟩
    rw [codes, List.map_map]
    refine (List.map_id _).symm.trans (List.map_congr_left fun c hc => ?_)
    have hlt : c < 128 := by
      rcases List.mem_append.mp hc with hc | hc
      · exact hn.ascii c hc
      · exact hunits _ hmem c hc
    rw [Function.comp_apply, BitVec.toNat_ofNat, Nat.mod_eq_of_lt (by omega), id]

/-! ## The options -/

/-- Numbers are the numerals up to the maximum. RAM sizes are a numeral of at most 31 characters and a
unit whose product is a size that RAM may have. On texts with a numeral of that length the builder
accepts the same sizes when they are a positive multiple of 16, and it accepts ASCII texts only. -/
theorem number_options :
    (∀ (text : CText) (maximum v : BitVec 64), number text maximum = some v ↔
      Numeral (codes text) v.toNat ∧ v.toNat ≤ maximum.toNat) ∧
    (∀ (text : CText) (size : ℕ), parseRamSize text = some size ↔
      ∃ numeral v factor, SizeText text numeral v factor ∧ numeral.length ≤ 31 ∧ size = v * factor ∧
        4 ≤ size ∧ size ≤ 256 * 1024 * 1024 ∧ size % 4 = 0) ∧
    (∀ text : CText, (∀ numeral v factor, SizeText text numeral v factor → numeral.length ≤ 31) →
      ∀ size, sizeBytes (codes text) = some size ↔
        parseRamSize text = some size ∧ 0 < size ∧ size % 16 = 0) ∧
    ∀ (s : List ℕ) (size : ℕ), sizeBytes s = some size → ∃ text, s = codes text := by
  have hram : ∀ (text : CText) (size : ℕ), parseRamSize text = some size ↔
      ∃ numeral v factor, SizeText text numeral v factor ∧ numeral.length ≤ 31 ∧ size = v * factor ∧
        4 ≤ size ∧ size ≤ 256 * 1024 * 1024 ∧ size % 4 = 0 := by
    intro text size
    simp only [parseRamSize_iff, memorySizeValid_iff]
  refine ⟨number_iff, hram, fun text hlen size => ?_, fun s size => sizeBytes_ascii⟩
  have hmax : maxRam = 256 * 1024 * 1024 := rfl
  have hdigits : 31 ≤ maxStrDigits := by decide
  rw [hram, sizeBytes_iff fun _ _ _ htext => (hlen _ _ _ htext).trans hdigits, hmax]
  constructor
  · rintro ⟨numeral, v, factor, htext, hsize, hlow, hhigh, hal⟩
    exact ⟨⟨numeral, v, factor, htext, hlen _ _ _ htext, hsize, by omega, hhigh, by omega⟩,
      by omega, hal⟩
  · rintro ⟨⟨numeral, v, factor, htext, -, hsize, -, hhigh, -⟩, hpos, hal⟩
    exact ⟨numeral, v, factor, htext, hsize, by omega, hhigh, hal⟩

theorem number_options_hex : parseRamSize [0x30#8, 0x78#8, 0x34#8, 0x30#8, 0x4B#8, 0x69#8, 0x42#8] =
      some 65536 ∧
    sizeBytes (codes [0x30#8, 0x78#8, 0x34#8, 0x30#8, 0x4B#8, 0x69#8, 0x42#8]) = some 65536 := by
  have hparse : parseRamSize [0x30#8, 0x78#8, 0x34#8, 0x30#8, 0x4B#8, 0x69#8, 0x42#8] = some 65536 := by
    refine (number_options.2.1 _ _).mpr ⟨[0x30#8, 0x78#8, 0x34#8, 0x30#8], 64, 1024, ⟨?_, ?_⟩, ?_⟩
    · exact ⟨[0x4B#8, 0x69#8, 0x42#8], rfl, by decide⟩
    · exact .hex (.inl rfl) (by decide) (by decide)
    · decide
  refine ⟨hparse, (number_options.2.2.1 _ ?_ 65536).mpr ⟨hparse, by decide, by decide⟩⟩
  intro numeral v factor h
  obtain ⟨suffix, hsplit, -⟩ := h.split
  have hlen := congrArg List.length hsplit
  simp only [List.length_cons, List.length_nil, List.length_append] at hlen
  omega

end Riscv32
