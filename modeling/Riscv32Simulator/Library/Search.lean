import Mathlib

/-! Searching an initial segment of the indices: for the point where a predicate ends to hold, and
backwards for the last hit. -/

namespace Search

/-- Where `p` stops to hold between `left` and `right`, found by halving. -/
def partitionPoint (p : ℕ → Bool) (left right : ℕ) : ℕ :=
  if left < right then
    let middle := left + (right - left) / 2
    if p middle then partitionPoint p (middle + 1) right else partitionPoint p left middle
  else left
termination_by right - left

theorem partitionPoint_splits {p : ℕ → Bool} {left right : ℕ} (hle : left ≤ right)
    (hp : ∀ i j, i ≤ j → j < right → p j = true → p i = true) :
    left ≤ partitionPoint p left right ∧ partitionPoint p left right ≤ right ∧
      (∀ i, left ≤ i → i < partitionPoint p left right → p i = true) ∧
      ∀ i, partitionPoint p left right ≤ i → i < right → p i = false := by
  fun_induction partitionPoint p left right with
  | case1 left right hlt middle hm ih =>
    obtain ⟨h1, h2, h3, h4⟩ := ih (by omega) hp
    refine ⟨by omega, h2, fun i hi hi' => ?_, h4⟩
    by_cases hmid : i ≤ middle
    · exact hp i middle hmid (by omega) hm
    · exact h3 i (by omega) hi'
  | case2 left right hlt middle hm ih =>
    obtain ⟨h1, h2, h3, h4⟩ := ih (by omega) fun i j hij hj => hp i j hij (by omega)
    refine ⟨h1, by omega, h3, fun i hi hi' => ?_⟩
    by_cases hmid : middle ≤ i
    · rw [Bool.eq_false_iff]
      exact fun hc => hm (hp middle i hmid hi' hc)
    · exact h4 i hi (by omega)
  | case3 left right hlt =>
    exact ⟨le_rfl, hle, fun i hi hi' => by omega, fun i hi hi' => by omega⟩

/-- The last hit below an index, unless the search is given up first. -/
def scanBack (giveUp hit : ℕ → Bool) : ℕ → Option ℕ
  | 0 => none
  | i + 1 => if giveUp i then none else if hit i then some i else scanBack giveUp hit i

/-- Giving up is no loss when no hit is at or below the index. -/
theorem scanBack_spec {giveUp hit : ℕ → Bool} {n : ℕ}
    (hg : ∀ i j, i < n → giveUp i = true → j ≤ i → hit j = false) :
    (scanBack giveUp hit n = none ↔ ∀ i < n, hit i = false) ∧
      ∀ i, scanBack giveUp hit n = some i →
        i < n ∧ hit i = true ∧ ∀ j, i < j → j < n → hit j = false := by
  induction n with
  | zero => exact ⟨iff_of_true rfl fun i hi => absurd hi (Nat.not_lt_zero i), by simp [scanBack]⟩
  | succ n ih =>
    rw [scanBack]
    split_ifs with hgive hhit
    · exact ⟨iff_of_true rfl fun i hi => hg n i (by omega) hgive (by omega), by simp⟩
    · refine ⟨iff_of_false (by simp) fun hc => ?_, fun i hi => ?_⟩
      · rw [hc n (by omega)] at hhit
        exact Bool.false_ne_true hhit
      · obtain rfl := Option.some.inj hi
        exact ⟨by omega, hhit, fun j hj hj' => by omega⟩
    · obtain ⟨hnone, hsome⟩ := ih fun i j hi => hg i j (by omega)
      have hn : hit n = false := Bool.eq_false_iff.mpr hhit
      refine ⟨hnone.trans ⟨fun hc i hi => ?_, fun hc i hi => hc i (by omega)⟩, fun i hi => ?_⟩
      · rcases Nat.lt_succ_iff_lt_or_eq.mp hi with hlt | rfl
        · exact hc i hlt
        · exact hn
      · obtain ⟨h1, h2, h3⟩ := hsome i hi
        refine ⟨by omega, h2, fun j hj hj' => ?_⟩
        rcases Nat.lt_succ_iff_lt_or_eq.mp hj' with hlt | rfl
        · exact h3 j hj hlt
        · exact hn

end Search
