import Riscv32Simulator.Source.GuestMemory

/-! `memmove` for every overlap of its two ranges. -/

namespace Riscv32
open Checked

namespace AddressSpace

def moved (space : AddressSpace) (destination source lo hi : BitVec 32) : AddressSpace :=
  fun a => if lo ≤ a - destination ∧ a - destination < hi then space (source + (a - destination))
    else space a

variable (space : AddressSpace) {destination source lo hi : BitVec 32}

theorem moved_self : space.moved destination source lo lo = space := by
  funext a
  exact if_neg fun h => by bv_omega

theorem moved_of_outside {a : BitVec 32} (h : ¬ (lo ≤ a - destination ∧ a - destination < hi)) :
    space.moved destination source lo hi a = space a := if_neg h

theorem store_moved_above (hle : lo ≤ hi) (hlt : hi < hi + 1) :
    (space.moved destination source lo hi).store (destination + hi) (space (source + hi)) =
      space.moved destination source lo (hi + 1) := by
  funext a
  unfold store moved
  by_cases ha : a = destination + hi
  · have hoff : a - destination = hi := by bv_omega
    rw [if_pos ha, hoff, if_pos ⟨hle, hlt⟩]
  · rw [if_neg ha]
    refine if_congr (and_congr_right fun _ => ?_) rfl rfl
    constructor
    · intro h
      bv_omega
    · intro h
      bv_omega

theorem store_moved_below (hpos : lo ≠ 0) (hle : lo ≤ hi) :
    (space.moved destination source lo hi).store (destination + (lo - 1))
        (space (source + (lo - 1))) = space.moved destination source (lo - 1) hi := by
  funext a
  unfold store moved
  by_cases ha : a = destination + (lo - 1)
  · have hoff : a - destination = lo - 1 := by bv_omega
    have hin : lo - 1 ≤ lo - 1 ∧ lo - 1 < hi := by bv_omega
    rw [if_pos ha, hoff, if_pos hin]
  · rw [if_neg ha]
    refine if_congr (and_congr_left fun _ => ?_) rfl rfl
    constructor
    · intro h
      bv_omega
    · intro h
      bv_omega

end AddressSpace

variable (space : AddressSpace) {destination source count : BitVec 32}

/-- The loop is right where no source byte lies in the part that has been written before it is read. -/
theorem meets_copyForward (hunread : ∀ i < count, i ≤ source + i - destination) :
    Meets (· = space.moved destination source 0 count) (fun _ => False)
      (loop (copyForwardTurn destination source count) (count.toNat + 1) (0, space)) := by
  refine meets_loop (I := fun s => s.1 ≤ count ∧ s.2 = space.moved destination source 0 s.1)
    (fun s => count.toNat - s.1.toNat) ?_ ⟨by bv_omega, (space.moved_self).symm⟩ (by bv_omega)
  rintro ⟨i, now⟩ ⟨hi, hnow⟩
  dsimp only at hi hnow ⊢
  unfold copyForwardTurn
  refine meets_ite (fun hlt => ?_) fun hge => ?_
  · have hread : now (source + i) = space (source + i) := by
      rw [hnow]
      exact space.moved_of_outside fun h => BitVec.not_le.mpr h.2 (hunread i hlt)
    dsimp only at hlt ⊢
    rw [hread, hnow, space.store_moved_above (by bv_omega) (by bv_omega)]
    exact ⟨⟨by bv_omega, rfl⟩, by bv_omega⟩
  · have hi' : i = count := by
      dsimp only at hge
      bv_omega
    subst hi'
    exact hnow

theorem meets_copyBackward (hd : destination.toNat + count.toNat ≤ 2 ^ 32)
    (hs : source.toNat + count.toNat ≤ 2 ^ 32) (hlt : ¬ destination ≤ source) :
    Meets (· = space.moved destination source 0 count) (fun _ => False)
      (loop (copyBackwardTurn destination source) (count.toNat + 1) (count, space)) := by
  refine meets_loop (I := fun s => s.1 ≤ count ∧ s.2 = space.moved destination source s.1 count)
    (fun s => s.1.toNat) ?_ ⟨by bv_omega, (space.moved_self).symm⟩ (by bv_omega)
  rintro ⟨i, now⟩ ⟨hi, hnow⟩
  dsimp only at hi hnow ⊢
  unfold copyBackwardTurn
  refine meets_ite (fun hne => ?_) fun heq => ?_
  · -- the part that has been written is above the source byte, without wrapping around
    dsimp only at hne ⊢
    have hread : now (source + (i - 1)) = space (source + (i - 1)) := by
      rw [hnow]
      exact space.moved_of_outside (by bv_omega)
    rw [hread, hnow, space.store_moved_below hne hi]
    exact ⟨⟨by bv_omega, rfl⟩, by bv_omega⟩
  · have hi' : i = 0 := by
      dsimp only at heq
      exact of_not_not heq
    subst hi'
    exact hnow

theorem unread_of_le (hs : source.toNat + count.toNat ≤ 2 ^ 32) (hle : destination ≤ source) :
    ∀ i < count, i ≤ source + i - destination := by
  intro i hi
  bv_omega

theorem memmove_eq (hd : destination.toNat + count.toNat ≤ 2 ^ 32)
    (hs : source.toNat + count.toNat ≤ 2 ^ 32) : memmove space destination source count =
      .ok (destination, space.moved destination source 0 count) := by
  unfold memmove
  by_cases hle : destination ≤ source
  · rcases (meets_copyForward space (unread_of_le hs hle)).ok_or_reported with ⟨after, hafter, rfl⟩ | ⟨e, -, he⟩
    · simp only [if_pos hle, hafter]
      rfl
    · exact absurd he id
  · rcases (meets_copyBackward space hd hs hle).ok_or_reported with ⟨after, hafter, rfl⟩ | ⟨e, -, he⟩
    · simp only [if_neg hle, hafter]
      rfl
    · exact absurd he id

/-- `memmove` ends with the old source bytes in the destination and all other bytes as they were. -/
theorem memmove_moves (hd : destination.toNat + count.toNat ≤ 2 ^ 32)
    (hs : source.toNat + count.toNat ≤ 2 ^ 32) :
    ∃ after, memmove space destination source count = .ok (destination, after) ∧
      (∀ i < count, after (destination + i) = space (source + i)) ∧
      ∀ a, (∀ i < count, a ≠ destination + i) → after a = space a := by
  refine ⟨_, memmove_eq space hd hs, ?_, ?_⟩
  · intro i hi
    have hoff : destination + i - destination = i := by bv_omega
    have hin : 0 ≤ i ∧ i < count := ⟨by bv_omega, hi⟩
    rw [AddressSpace.moved, hoff, if_pos hin]
  · intro a ha
    refine space.moved_of_outside fun h => ha _ h.2 ?_
    bv_omega

theorem memmove_moves_up : ∃ after, memmove (fun a => a.setWidth 8) 3#32 1#32 4#32 = .ok (3#32, after) ∧
    after 6#32 = 4#8 ∧ after 7#32 = 7#8 := by
  obtain ⟨after, hcall, hin, hout⟩ := memmove_moves (fun a => a.setWidth 8)
    (by decide : (3#32).toNat + (4#32).toNat ≤ 2 ^ 32)
    (by decide : (1#32).toNat + (4#32).toNat ≤ 2 ^ 32)
  refine ⟨after, hcall, hin 3#32 (by decide), hout 7#32 ?_⟩
  intro i hi
  bv_omega

end Riscv32
