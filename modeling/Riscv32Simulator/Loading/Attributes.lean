import Riscv32Simulator.Loading.AttributeGrammar
import Riscv32Simulator.Loading.ElfReading

/-! The checks of `attributes` accept exactly the sections that the grammar describes. -/

namespace Riscv32
open Checked Splice Tiling

/-! ## Numbers -/

theorem byte_last_iff : ∀ b : BitVec 8, b &&& 128#8 = 0 ↔ b.toNat < 128 := by decide

theorem byte_high_iff : ∀ b : BitVec 8, b &&& 0xF0#8 ≠ 0 ↔ 16 ≤ b.toNat := by decide

theorem toNat_ulebStep {k : ℕ} (hk : k < 5) {result : BitVec 32} (hresult : result.toNat < 2 ^ (7 * k))
    {b : BitVec 8} (hb : k = 4 → b.toNat < 16) :
    (result ||| (b &&& 127#8).setWidth 32 <<< (7 * k)).toNat =
      result.toNat + 2 ^ (7 * k) * (b.toNat % 128) := by
  have h7 : (b &&& 127#8).toNat = b.toNat % 128 := by
    rw [BitVec.toNat_and]
    exact Nat.and_two_pow_sub_one_eq_mod _ 7
  have hlt : b.toNat % 128 * 2 ^ (7 * k) < 2 ^ 32 := by
    interval_cases k <;> omega
  rw [BitVec.toNat_or, BitVec.toNat_shiftLeft, BitVec.toNat_setWidth, h7,
    Nat.mod_eq_of_lt (by omega : b.toNat % 128 < 2 ^ 32), Nat.shiftLeft_eq, Nat.mod_eq_of_lt hlt,
    ← Nat.shiftLeft_eq, Nat.or_comm, ← Nat.shiftLeft_add_eq_or_of_lt hresult, Nat.shiftLeft_eq,
    Nat.mul_comm, Nat.add_comm]

section File

variable {file : List (BitVec 8)} {E : ProgramError → Prop}

theorem meets_ulebFrom {fin : ℕ} (hfin : fin ≤ file.length) {n k : ℕ} (hk : k + n = 5)
    (cursor : ℕ) {result : BitVec 32} (hresult : result.toNat < 2 ^ (7 * k)) :
    Meets (fun r =>
        (r = none → ∀ bs v x, window file cursor fin = bs ++ x → Leb128.Encodes bs v →
          bs.length ≤ n → 2 ^ 32 ≤ result.toNat + 2 ^ (7 * k) * v) ∧
        ∀ q, r = some q → cursor < q.1 ∧ q.1 ≤ fin ∧ q.1 - cursor ≤ n ∧
          ∃ v, Leb128.Encodes (window file cursor q.1) v ∧
            q.2.toNat = result.toNat + 2 ^ (7 * k) * v) E
      (ulebFrom file fin ((List.range' k n).map (7 * ·)) cursor result) := by
  induction n generalizing k cursor result with
  | zero =>
    refine meets_pure ⟨fun _ bs v x _ hv hlen => ?_, nofun⟩
    rw [List.length_eq_zero_iff.mp (Nat.le_zero.mp hlen)] at hv
    exact absurd hv (Leb128.not_encodes_nil v)
  | succ n ih =>
    rw [List.range'_succ, List.map_cons, ulebFrom]
    refine meets_ite (fun hlt => ?_) fun hge => meets_pure ⟨fun _ bs v x hwin hv _ => ?_, nofun⟩
    swap
    · rw [window_eq_nil (by omega), eq_comm, List.append_eq_nil_iff] at hwin
      rw [hwin.1] at hv
      exact absurd hv (Leb128.not_encodes_nil v)
    have hcons := window_cons hlt hfin
    refine (meets_byteAt (by omega)).bind fun b hb => ?_
    rw [← hb] at hcons
    refine meets_ite (fun hhigh => meets_pure ⟨fun _ bs v x hwin hv hlen => ?_, nofun⟩)
      fun hlow => ?_
    · -- four bits are left for the fifth byte
      obtain rfl : k = 4 := by omega
      obtain rfl : n = 0 := by omega
      have h16 := (byte_high_iff b).mp hhigh.2
      rw [hcons] at hwin
      cases hv with
      | last =>
        obtain ⟨rfl, -⟩ := List.cons.inj hwin
        omega
      | @more _ bs _ _ hv =>
        rw [List.length_cons] at hlen
        rw [List.length_eq_zero_iff.mp (by omega : bs.length = 0)] at hv
        exact absurd hv (Leb128.not_encodes_nil _)
    have hb16 : k = 4 → b.toNat < 16 := by
      rintro rfl
      by_contra hc
      exact hlow ⟨rfl, (byte_high_iff b).mpr (by omega)⟩
    have hstep := toNat_ulebStep (by omega : k < 5) hresult hb16
    refine meets_ite (fun hlast => meets_pure ⟨nofun, fun q hq => ?_⟩) fun hmore => ?_
    · have h128 := (byte_last_iff b).mp hlast
      obtain rfl := Option.some.inj hq
      refine ⟨Nat.lt_succ_self _, hlt, by dsimp only; omega, b.toNat, ?_, ?_⟩
      · dsimp only
        rw [window_cons (Nat.lt_succ_self _) (by omega), window_eq_nil le_rfl, ← hb]
        exact .last h128
      · rw [hstep, Nat.mod_eq_of_lt h128]
    · have h128 : 128 ≤ b.toNat := not_lt.mp fun hc => hmore ((byte_last_iff b).mpr hc)
      have hbl := b.isLt
      have hmod : b.toNat % 128 = b.toNat - 128 := by omega
      have hpow : 2 ^ (7 * (k + 1)) = 2 ^ (7 * k) * 128 := by
        rw [Nat.mul_add, pow_add]
        rfl
      rw [hmod] at hstep
      have hnext : (result ||| (b &&& 127#8).setWidth 32 <<< (7 * k)).toNat < 2 ^ (7 * (k + 1)) := by
        rw [hstep, hpow]
        have hle : 2 ^ (7 * k) * (b.toNat - 128) ≤ 2 ^ (7 * k) * 127 :=
          Nat.mul_le_mul_left _ (by omega)
        omega
      have harith (v : ℕ) : (result ||| (b &&& 127#8).setWidth 32 <<< (7 * k)).toNat +
          2 ^ (7 * (k + 1)) * v = result.toNat + 2 ^ (7 * k) * (b.toNat - 128 + 128 * v) := by
        rw [hstep, hpow]
        ring
      refine (ih (by omega) (cursor + 1) hnext).imp fun r hr => ⟨fun hnone bs v x hwin hv hlen => ?_,
        fun q hq => ?_⟩
      · rw [hcons] at hwin
        cases hv with
        | last hl =>
          obtain ⟨rfl, -⟩ := List.cons.inj hwin
          omega
        | @more _ bs v _ hv =>
          obtain ⟨rfl, hrest⟩ := List.cons.inj hwin
          rw [List.length_cons] at hlen
          rw [← harith]
          exact hr.1 hnone bs v x hrest hv (by omega)
      · obtain ⟨h1, h2, h3, v, hv, hval⟩ := hr.2 q hq
        refine ⟨by omega, h2, by omega, _, ?_, hval.trans (harith v)⟩
        rw [window_cons (by omega) (by omega), ← hb]
        exact .more h128 hv

theorem meets_orMalformed {α : Type} {Q : α → Prop} {o : Option α} (h : ∀ a, o = some a → Q a)
    (hE : o = none → ∀ e, E e) : Meets Q E (orMalformed o) := by
  cases o with
  | none => exact meets_reported (hE rfl _)
  | some a => exact meets_pure (h a rfl)

/-- A number is read exactly where one begins. -/
theorem meets_uleb {fin : ℕ} (hfin : fin ≤ file.length) (cursor : ℕ) :
    Meets (fun q => cursor < q.1 ∧ q.1 ≤ fin ∧ Uleb32 (window file cursor q.1) q.2.toNat)
      (fun _ => ¬ ∃ bs v x, window file cursor fin = bs ++ x ∧ Uleb32 bs v)
      (uleb file cursor fin >>= orMalformed) := by
  refine (meets_ulebFrom hfin (by omega : 0 + 5 = 5) cursor (by decide)).bind fun r hr =>
    meets_orMalformed (fun q hq => ?_) fun hnone _ => ?_
  · obtain ⟨h1, h2, h3, v, hv, hval⟩ := hr.2 q hq
    have hval' : q.2.toNat = v := by
      rw [hval]
      simp
    refine ⟨h1, h2, hval' ▸ hv, ?_, q.2.isLt⟩
    rw [length_window (by omega)]
    exact h3
  · rintro ⟨bs, v, x, hwin, hv, hlen, hlt⟩
    have hge := hr.1 hnone bs v x hwin hv hlen
    simp at hge
    omega

/-! ## Attributes -/

theorem vendorRiscv_text : 0 ∉ vendorRiscv := by decide

theorem meets_archSupported {p q : ℕ} (hpq : p ≤ q) (hq : q < file.length)
    (h0 : fileByte file q = 0) (hbefore : 0 ∉ window file p q) :
    Meets (fun r => r = true ↔ window file p q ∈ [archRv32i2p1, archRv32i2p0, archRv32i]) E
      (archSupported file p) := by
  simp only [List.mem_cons, List.not_mem_nil, or_false]
  refine (meets_strcmpEq hpq hq h0 hbefore (by decide)).bind fun r1 h1 => ?_
  refine meets_ite (fun hr => meets_pure (iff_of_true rfl (.inl (h1.mp hr)))) fun hr1 => ?_
  refine (meets_strcmpEq hpq hq h0 hbefore (by decide)).bind fun r2 h2 => ?_
  refine meets_ite (fun hr => meets_pure (iff_of_true rfl (.inr (.inl (h2.mp hr))))) fun hr2 => ?_
  refine (meets_strcmpEq hpq hq h0 hbefore (by decide)).imp fun r3 h3 => ?_
  rw [h3, or_iff_right (h1.not.mp hr1), or_iff_right (h2.not.mp hr2)]

theorem odd_tag_iff (tag : BitVec 32) : tag &&& 1#32 ≠ 0 ↔ tag.toNat % 2 = 1 := by
  have h : (tag &&& 1#32).toNat = tag.toNat % 2 := by
    rw [BitVec.toNat_and]
    exact Nat.and_two_pow_sub_one_eq_mod _ 1
  rw [← h, ne_eq, ← BitVec.toNat_inj]
  have h0 : (0 : BitVec 32).toNat = 0 := rfl
  omega

def Took (file : List (BitVec 8)) (P : List (BitVec 8) → Prop) (p fin q : ℕ) : Prop :=
  q ≤ fin ∧ ∃ piece, window file p fin = piece ++ window file q fin ∧ P piece

theorem meets_textAttribute {subend : ℕ} (hend : subend ≤ file.length) {p p1 : ℕ}
    (hp : p ≤ p1) (hp1 : p1 ≤ subend) {tag : BitVec 32}
    (htag : Uleb32 (window file p p1) tag.toNat) (hodd : tag.toNat % 2 = 1) :
    Meets (Sum.elim (Took file (Attribute Uleb32) p subend) fun _ : ℕ => False)
      (fun _ => ¬ Begins (Attribute Uleb32) (window file p subend)) (do
        let q ← memchrNul file p1 (subend - p1) >>= orMalformed
        if tag = 5#32 then
          reject (!(← archSupported file p1))
            "ELF architecture requires instructions beyond RV32I"
        return .inl (q + 1)) := by
  rw [window_split hp hp1, begins_attribute_odd uleb32_selfDelimiting htag hodd]
  refine ((meets_memchrNul (by omega : p1 + (subend - p1) ≤ file.length)).bind fun r hr =>
    meets_orMalformed (Q := fun q => p1 ≤ q ∧ q < subend ∧ fileByte file q = 0 ∧
      0 ∉ window file p1 q) (fun q hq => ?_) fun hnone _ => ?_).bind fun q ⟨h1, h2, h3, h4⟩ => ?_
  · have hh := hr.2 q hq
    rwa [Nat.add_sub_cancel' hp1] at hh
  · rintro ⟨s, x, hw, -⟩
    have hno := hr.1 hnone
    rw [Nat.add_sub_cancel' hp1, hw] at hno
    exact hno (by simp)
  -- the text ends at the first null byte, which must lie in the block
  have htext : window file p1 subend = window file p1 q ++ 0 :: window file (q + 1) subend := by
    rw [window_split h1 h2.le, window_cons h2 hend, h3]
  have hnext (hc : Compatible tag.toNat (.text (window file p1 q))) :
      Took file (Attribute Uleb32) p subend (q + 1) := by
    refine ⟨h2, window file p p1 ++ (window file p1 q ++ [0]), ?_, _, _, .text htag hodd h4, hc⟩
    rw [window_split hp hp1, htext]
    simp
  refine meets_ite (fun h5 => ?_) fun h5 => meets_pure (hnext fun hc => ?_)
  · refine (meets_archSupported h1 (by omega) h3 h4).bind fun r hr => ?_
    refine (meets_rejectIf fun hr' => ?_).bind fun _ hr' => meets_pure (hnext fun _ => ?_)
    · rintro ⟨s, x, hw, hs, hcompat⟩
      obtain ⟨rfl, -⟩ := text_unique h4 hs (htext.symm.trans hw)
      have hmem := hr.mpr (hcompat (by rw [h5]; rfl))
      simp [hmem] at hr'
    · refine hr.mp ?_
      simpa using hr'
  · exact absurd (BitVec.eq_of_toNat_eq hc) h5

theorem meets_numberAttribute {subend : ℕ} (hend : subend ≤ file.length) {p p1 : ℕ}
    (hp : p ≤ p1) (hp1 : p1 ≤ subend) {tag : BitVec 32}
    (htag : Uleb32 (window file p p1) tag.toNat) (heven : tag.toNat % 2 = 0) :
    Meets (Sum.elim (Took file (Attribute Uleb32) p subend) fun _ : ℕ => False)
      (fun _ => ¬ Begins (Attribute Uleb32) (window file p subend)) (do
        let (q, value) ← uleb file p1 subend >>= orMalformed
        reject (tag = 4#32 ∧ value ≠ 16#32) "ELF requires an unsupported stack alignment"
        reject (tag = 6#32 ∧ value ≠ 0#32) "ELF declares unaligned memory accesses"
        return .inl q) := by
  rw [window_split hp hp1, begins_attribute_even uleb32_selfDelimiting htag heven]
  refine ((meets_uleb hend p1).mono (fun _ => id) ?_).bind ?_
  · rintro _ hno ⟨bs, v, x, hw, hv, -⟩
    exact hno ⟨bs, v, x, hw, hv⟩
  rintro ⟨q, value⟩ ⟨h1, h2, hvalue⟩
  dsimp only at h1 h2 hvalue
  have hsplit : window file p1 subend = window file p1 q ++ window file q subend :=
    window_split h1.le h2
  have hcompat (hb : ∃ bs v x, window file p1 subend = bs ++ x ∧ Uleb32 bs v ∧
      Compatible tag.toNat (.number v)) : Compatible tag.toNat (.number value.toNat) := by
    obtain ⟨bs, v, x, hw, hv, hc⟩ := hb
    obtain ⟨-, rfl⟩ := uleb32_selfDelimiting.unique hvalue hv (hsplit.symm.trans hw)
    exact hc
  refine (meets_rejectIf fun h4 => ?_).bind fun _ h4 => ?_
  · exact fun hb => h4.2 (BitVec.eq_of_toNat_eq ((hcompat hb).1 (by rw [h4.1]; rfl)))
  refine (meets_rejectIf fun h6 => ?_).bind fun _ h6 => ?_
  · exact fun hb => h6.2 (BitVec.eq_of_toNat_eq ((hcompat hb).2 (by rw [h6.1]; rfl)))
  refine meets_pure ⟨h2, window file p p1 ++ window file p1 q, ?_, _, _,
    .number htag heven hvalue, fun hc => ?_, fun hc => ?_⟩
  · rw [window_split hp hp1, hsplit, List.append_assoc]
  · exact congrArg BitVec.toNat (not_not.mp fun hv => h4 ⟨BitVec.eq_of_toNat_eq hc, hv⟩)
  · exact congrArg BitVec.toNat (not_not.mp fun hv => h6 ⟨BitVec.eq_of_toNat_eq hc, hv⟩)

theorem meets_attributeTurn {subend : ℕ} (hend : subend ≤ file.length) {p : ℕ} (hp : p ≤ subend) :
    Meets (Sum.elim (Took file (Attribute Uleb32) p subend)
        fun q => window file p subend = [] ∧ q = subend)
      (fun _ => window file p subend ≠ [] ∧ ¬ Begins (Attribute Uleb32) (window file p subend))
      (attributeTurn file subend p) := by
  refine meets_ite (fun hlt => ?_) fun hge =>
    meets_pure ⟨window_eq_nil (not_lt.mp hge), Nat.le_antisymm hp (not_lt.mp hge)⟩
  have hne : window file p subend ≠ [] := by
    rw [window_cons hlt hend]
    nofun
  refine ((meets_uleb hend p).mono (fun _ => id) ?_).bind ?_
  · exact fun _ hno => ⟨hne, fun hb => hno (by
      obtain ⟨tag, t, x, hw, htag⟩ := begins_attribute hb
      exact ⟨tag, t, x, hw, htag⟩)⟩
  rintro ⟨p1, tag⟩ ⟨h1, h2, htag⟩
  dsimp only at h1 h2 htag
  have hlast : ∀ r : ℕ ⊕ ℕ, Sum.elim (Took file (Attribute Uleb32) p subend) (fun _ => False) r →
      Sum.elim (Took file (Attribute Uleb32) p subend)
        (fun q => window file p subend = [] ∧ q = subend) r := by
    rintro (q | q) hq
    · exact hq
    · exact hq.elim
  -- the lowest bit of a tag tells whether a text or a number stands after it
  refine meets_ite (fun hodd => ?_) fun heven => ?_
  · exact (meets_textAttribute hend h1.le h2 htag ((odd_tag_iff tag).mp hodd)).mono hlast
      fun _ hb => ⟨hne, hb⟩
  · have heven' : tag.toNat % 2 = 0 := by
      have hh := (odd_tag_iff tag).not.mp heven
      omega
    exact (meets_numberAttribute hend h1.le h2 htag heven').mono hlast fun _ hb => ⟨hne, hb⟩

/-! ## Blocks -/

theorem window_sized {p fin : ℕ} (hfin : fin ≤ file.length) {size body x : List (BitVec 8)}
    (h : window file p fin = size ++ (body ++ x)) (hsize : size.length = 4) :
    p + 4 + body.length ≤ fin ∧ LittleEndian.value size = (fileWord file p).toNat ∧
      body = window file (p + 4) (p + 4 + body.length) := by
  have hl := congrArg List.length h
  rw [length_window hfin, List.length_append, List.length_append, hsize] at hl
  obtain ⟨hs, hrest⟩ := window_parts hfin h
  rw [hsize] at hs hrest
  refine ⟨by omega, ?_, (window_parts hfin hrest.symm).1⟩
  rw [toNat_fileWord (by omega), ← hs]

theorem meets_subsectionTurn {fin : ℕ} (hfin : fin ≤ file.length) (p : ℕ) :
    Meets (Sum.elim (Took file (Block Uleb32) p fin) fun _ => window file p fin = [] ∧ True)
      (fun _ => window file p fin ≠ [] ∧ ¬ Begins (Block Uleb32) (window file p fin))
      (subsectionTurn file fin p) := by
  refine meets_ite (fun hlt => ?_) fun hge =>
    meets_pure ⟨window_eq_nil (not_lt.mp hge), trivial⟩
  have hne : window file p fin ≠ [] := by
    rw [window_cons hlt hfin]
    nofun
  refine ((meets_uleb hfin p).mono (fun _ => id) ?_).bind ?_
  · rintro _ hno
    refine ⟨hne, ?_⟩
    rintro ⟨piece, x, hw, scope, size, body, rfl, hscope, -⟩
    exact hno ⟨scope, 1, _, hw.trans (List.append_assoc ..), hscope⟩
  rintro ⟨p1, scope⟩ ⟨h1, h2, hscope⟩
  dsimp only at h1 h2 hscope
  have hsplit : window file p fin = window file p p1 ++ window file p1 fin :=
    window_split h1.le h2
  have hlen : (window file p p1).length = p1 - p := length_window (by omega)
  -- a block that begins here has its size and its body where the turn looks for them
  have hblock (hb : Begins (Block Uleb32) (window file p fin)) :
      scope.toNat = 1 ∧ p + (fileWord file p1).toNat ≤ fin ∧
        p1 + 4 ≤ p + (fileWord file p1).toNat ∧
        Tiles (Attribute Uleb32) (window file (p1 + 4) (p + (fileWord file p1).toNat)) := by
    rw [hsplit, begins_block uleb32_selfDelimiting hscope] at hb
    obtain ⟨h1', size, body, x, hw, hsize, hvalue, hbody⟩ := hb
    obtain ⟨hle, hword, hwindow⟩ := window_sized hfin hw hsize
    rw [hword, hlen] at hvalue
    refine ⟨h1', by omega, by omega, ?_⟩
    rwa [show p + (fileWord file p1).toNat = p1 + 4 + body.length by omega, ← hwindow]
  refine meets_ite (fun hroom => meets_reported ⟨hne, fun hb => ?_⟩) fun hroom => ?_
  · have hh := hblock hb
    omega
  refine (meets_u32 (by omega)).bind fun subsize hsubsize => ?_
  rw [hsubsize]
  refine meets_ite (fun hsub => meets_reported ⟨hne, fun hb => ?_⟩) fun hsub => ?_
  · have hh := hblock hb
    omega
  refine (meets_rejectIf fun hs => ?_).bind fun _ hs => ?_
  · exact ⟨hne, fun hb => hs (BitVec.eq_of_toNat_eq (hblock hb).1)⟩
  have hend : p + (fileWord file p1).toNat ≤ fin := by omega
  refine ((meets_loop_tiles (attribute_prefixFree uleb32_selfDelimiting)
    (attribute_nonempty uleb32_selfDelimiting)
    (fun q => window file q (p + (fileWord file p1).toNat))
    (I := fun q => q ≤ p + (fileWord file p1).toNat)
    (fun q hq => meets_attributeTurn (by omega) hq) ?_ ?_).mono (fun _ => id) ?_).bind ?_
  · omega
  · rw [length_window (by omega)]
    omega
  · exact fun _ hno => ⟨hne, fun hb => hno (hblock hb).2.2.2⟩
  rintro q ⟨hbody, rfl⟩
  refine meets_pure ⟨hend, window file p (p + (fileWord file p1).toNat),
    window_split (by omega) hend, window file p p1, window file p1 (p1 + 4), _, ?_, ?_, ?_, ?_, hbody⟩
  · rw [← window_split (by omega) (by omega), ← window_split h1.le (by omega)]
  · rw [not_not.mp hs] at hscope
    exact hscope
  · rw [length_window (by omega)]
    omega
  · rw [length_window (by omega), ← toNat_fileWord (by omega)]
    omega

/-! ## Sections -/

theorem meets_vendorTurn {data size : ℕ} (hdata : data + size ≤ file.length) {offset : ℕ}
    (hoffset : offset ≤ size) :
    Meets (Sum.elim
        (fun q => q ≤ size ∧ ∃ piece, window file (data + offset) (data + size) =
          piece ++ window file (data + q) (data + size) ∧ Subsection Uleb32 piece)
        fun _ => window file (data + offset) (data + size) = [] ∧ True)
      (fun _ => window file (data + offset) (data + size) ≠ [] ∧
        ¬ Begins (Subsection Uleb32) (window file (data + offset) (data + size)))
      (vendorTurn file data size offset) := by
  refine meets_ite (fun hlt => ?_) fun hge =>
    meets_pure ⟨window_eq_nil (by omega), trivial⟩
  have hne : window file (data + offset) (data + size) ≠ [] := by
    rw [window_cons (by omega) hdata]
    nofun
  -- a subsection that begins here has its length, its vendor and its body where they are read
  have hsubsection (hb : Begins (Subsection Uleb32) (window file (data + offset) (data + size))) :
      ∃ vendor body, 0 ∉ vendor ∧ (vendor = vendorRiscv → Tiles (Block Uleb32) body) ∧
        5 ≤ (fileWord file (data + offset)).toNat ∧
        data + offset + (fileWord file (data + offset)).toNat ≤ data + size ∧
        vendor ++ 0 :: body = window file (data + offset + 4)
          (data + offset + (fileWord file (data + offset)).toNat) := by
    obtain ⟨piece, x, hw, length, vendor, body, rfl, hlength, hvalue, hvendor, hbody⟩ := hb
    rw [List.append_assoc] at hw
    obtain ⟨hle, hword, hwindow⟩ := window_sized hdata hw hlength
    have hpos : 1 ≤ (vendor ++ 0 :: body).length := by
      rw [List.length_append, List.length_cons]
      omega
    rw [List.length_append, hlength, hword] at hvalue
    refine ⟨vendor, body, hvendor, hbody, by omega, by omega, ?_⟩
    rwa [hvalue, ← Nat.add_assoc]
  refine meets_ite (fun hroom => meets_reported ⟨hne, fun hb => ?_⟩) fun hroom => ?_
  · rw [Bool.not_eq_true', ← Bool.not_eq_true, range_iff] at hroom
    obtain ⟨_, _, -, -, h5, hle, -⟩ := hsubsection hb
    omega
  rw [Bool.not_eq_true', Bool.not_eq_false, range_iff] at hroom
  refine (meets_u32 (by omega)).bind fun length hlength => ?_
  rw [hlength]
  refine meets_ite (fun hlen => meets_reported ⟨hne, fun hb => ?_⟩) fun hlen => ?_
  · rw [Bool.not_eq_true', ← Bool.not_eq_true, range_iff] at hlen
    obtain ⟨_, _, -, -, h5, hle, -⟩ := hsubsection hb
    omega
  rw [not_or, Bool.not_eq_true', Bool.not_eq_false, range_iff] at hlen
  generalize hfin : data + offset + (fileWord file (data + offset)).toNat = fin at hsubsection ⊢
  have hin : data + offset + 4 + (fin - (data + offset + 4)) = fin := by omega
  refine ((meets_memchrNul (by omega : data + offset + 4 + (fin - (data + offset + 4)) ≤
    file.length)).bind fun r hr => meets_orMalformed (Q := fun q => data + offset + 4 ≤ q ∧
      q < fin ∧ fileByte file q = 0 ∧ 0 ∉ window file (data + offset + 4) q) (fun q hq => ?_)
        fun hnone _ => ?_).bind fun nul ⟨h1, h2, h3, h4⟩ => ?_
  · have hh := hr.2 q hq
    rwa [hin] at hh
  · refine ⟨hne, fun hb => ?_⟩
    obtain ⟨vendor, body, -, -, -, -, hw⟩ := hsubsection hb
    have hno := hr.1 hnone
    rw [hin, ← hw] at hno
    exact hno (by simp)
  have htext : window file (data + offset + 4) fin =
      window file (data + offset + 4) nul ++ 0 :: window file (nul + 1) fin := by
    rw [window_split h1 h2.le, window_cons h2 (by omega), h3]
  have hbody (hb : Begins (Subsection Uleb32) (window file (data + offset) (data + size)))
      (hriscv : window file (data + offset + 4) nul = vendorRiscv) :
      Tiles (Block Uleb32) (window file (nul + 1) fin) := by
    obtain ⟨vendor, body, hvendor, hbody, -, -, hw⟩ := hsubsection hb
    obtain ⟨rfl, rfl⟩ := text_unique h4 hvendor (htext.symm.trans hw.symm)
    exact hbody hriscv
  refine (meets_strcmpEq h1 (by omega) h3 h4 vendorRiscv_text).bind fun riscv hriscv => ?_
  have hnext (hb : window file (data + offset + 4) nul = vendorRiscv →
      Tiles (Block Uleb32) (window file (nul + 1) fin)) :
      offset + (fileWord file (data + offset)).toNat ≤ size ∧
        ∃ piece, window file (data + offset) (data + size) =
          piece ++ window file (data + (offset + (fileWord file (data + offset)).toNat))
            (data + size) ∧ Subsection Uleb32 piece := by
    refine ⟨by omega, window file (data + offset) fin, ?_,
      window file (data + offset) (data + offset + 4), _, _, ?_, ?_, ?_, h4, hb⟩
    · rw [← Nat.add_assoc, hfin]
      exact window_split (by omega) (by omega)
    · rw [← htext]
      exact window_split (by omega) (by omega)
    · rw [length_window (by omega)]
      omega
    · rw [length_window (by omega), ← toNat_fileWord (by omega)]
      omega
  refine meets_ite (fun hr => ?_) fun hr => ?_
  · refine ((meets_loop_tiles (block_prefixFree uleb32_selfDelimiting)
      (block_nonempty uleb32_selfDelimiting) (fun q => window file q fin)
      (I := fun q => q ≤ fin) (Q := fun _ => True)
      (fun q _ => meets_subsectionTurn (by omega) q) ?_ ?_).mono (fun _ => id) ?_).bind ?_
    · omega
    · rw [length_window (by omega)]
      omega
    · exact fun _ hno => ⟨hne, fun hb => hno (hbody hb (hriscv.mp hr))⟩
    · exact fun _ hb => meets_pure (hnext fun _ => hb.1)
  · exact meets_pure (hnext fun hc => absurd (hriscv.mpr hc) hr)

/-- The section is accepted exactly when the grammar describes it. -/
theorem meets_attributes {data size : ℕ} (hdata : data + size ≤ file.length) :
    Meets (fun _ => AttributeSection Uleb32 (slice file data size))
      (fun _ => ¬ AttributeSection Uleb32 (slice file data size)) (attributes file data size) := by
  have hslice : slice file data size = window file data (data + size) := by
    rw [window, Nat.add_sub_cancel_left]
  rw [hslice]
  refine (meets_rejectIf fun hsize => ?_).bind fun _ hsize => ?_
  · rw [window_eq_nil (by omega)]
    rintro ⟨rest, hrest, -⟩
    cases hrest
  rw [window_cons (by omega) hdata]
  refine (meets_byteAt (by omega)).bind fun b hb => ?_
  rw [← hb]
  refine (meets_rejectIf fun hne => ?_).bind fun _ heq => ?_
  · rintro ⟨rest, hrest, -⟩
    exact hne (List.cons.inj hrest).1
  -- every turn takes a subsection, until none is left
  refine (meets_loop_tiles subsection_prefixFree subsection_nonempty
    (fun q => window file (data + q) (data + size)) (I := fun q => q ≤ size)
    (Q := fun _ => True) (fun q hq => meets_vendorTurn hdata hq) ?_ ?_).mono ?_ ?_
  · omega
  · rw [length_window hdata]
    omega
  · rintro _ ⟨htiles, -⟩
    exact ⟨_, by rw [not_not.mp heq], htiles⟩
  · rintro _ hno ⟨rest, hrest, htiles⟩
    obtain ⟨-, rfl⟩ := List.cons.inj hrest
    exact hno htiles

end File

end Riscv32
