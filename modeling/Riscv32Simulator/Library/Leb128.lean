import Mathlib

/-! Natural numbers written as bytes of seven bits, lowest first, all but the last one marked. -/

namespace Leb128

inductive Encodes : List (BitVec 8) → ℕ → Prop
  | last {b : BitVec 8} : b.toNat < 128 → Encodes [b] b.toNat
  | more {b : BitVec 8} {bs : List (BitVec 8)} {v : ℕ} :
    128 ≤ b.toNat → Encodes bs v → Encodes (b :: bs) (b.toNat - 128 + 128 * v)

theorem not_encodes_nil (v : ℕ) : ¬ Encodes [] v := nofun

theorem encodes_last_iff {b : BitVec 8} (hb : b.toNat < 128) {bs : List (BitVec 8)} {v : ℕ} :
    Encodes (b :: bs) v ↔ bs = [] ∧ v = b.toNat := by
  constructor
  · intro h
    cases h with
    | last => exact ⟨rfl, rfl⟩
    | more hm => omega
  · rintro ⟨rfl, rfl⟩
    exact .last hb

theorem encodes_more_iff {b : BitVec 8} (hb : 128 ≤ b.toNat) {bs : List (BitVec 8)} {v : ℕ} :
    Encodes (b :: bs) v ↔ ∃ w, v = b.toNat - 128 + 128 * w ∧ Encodes bs w := by
  constructor
  · intro h
    cases h with
    | last hl => omega
    | more _ h => exact ⟨_, rfl, h⟩
  · rintro ⟨w, rfl, h⟩
    exact .more hb h

theorem Encodes.unique {as bs : List (BitVec 8)} {v w : ℕ} (ha : Encodes as v) (hb : Encodes bs w)
    {x y : List (BitVec 8)} (h : as ++ x = bs ++ y) : as = bs ∧ v = w := by
  induction ha generalizing bs w with
  | @last a hl =>
    cases bs with
    | nil => exact absurd hb (not_encodes_nil w)
    | cons b bs =>
      obtain ⟨rfl, -⟩ := List.cons.inj h
      obtain ⟨rfl, rfl⟩ := (encodes_last_iff hl).mp hb
      exact ⟨rfl, rfl⟩
  | @more a as v hm _ ih =>
    cases bs with
    | nil => exact absurd hb (not_encodes_nil w)
    | cons b bs =>
      obtain ⟨rfl, hrest⟩ := List.cons.inj h
      obtain ⟨u, rfl, hu⟩ := (encodes_more_iff hm).mp hb
      obtain ⟨rfl, rfl⟩ := ih hu hrest
      exact ⟨rfl, rfl⟩

end Leb128
