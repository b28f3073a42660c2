import Riscv32Simulator.Guest.Memmove

/-! `memcpy`, `memset` and `memcmp` of the guest runtime. -/

namespace Riscv32
open Checked

variable (space : AddressSpace) {destination source count : BitVec 32}

/-! ## Copying -/

theorem unread_of_apart (hs : source.toNat + count.toNat ≤ 2 ^ 32)
    (hapart : ¬ (source < destination ∧ destination.toNat < source.toNat + count.toNat)) :
    ∀ i < count, i ≤ source + i - destination := by
  intro i hi
  by_cases hle : destination ≤ source
  · exact unread_of_le hs hle i hi
  · bv_omega

theorem memcpy_eq (hunread : ∀ i < count, i ≤ source + i - destination) :
    memcpy space destination source count = .ok (destination, space.moved destination source 0 count) := by
  unfold memcpy
  rcases (meets_copyForward space hunread).ok_or_reported with ⟨after, hafter, rfl⟩ | ⟨e, -, he⟩
  · simp only [hafter]
    rfl
  · exact absurd he id

namespace AddressSpace

def ones (a : BitVec 32) (n : ℕ) : AddressSpace := fun c => if (c - a).toNat < n then 1 else 0

theorem store_ones (a : BitVec 32) {n : ℕ} (h : n < 2 ^ 32) :
    (ones a n).store (a + BitVec.ofNat 32 n) 1 = ones a (n + 1) := by
  funext c
  unfold store ones
  by_cases hc : c = a + BitVec.ofNat 32 n
  · rw [if_pos hc, if_pos (by bv_omega)]
  · rw [if_neg hc]
    refine if_congr ?_ rfl rfl
    bv_omega

end AddressSpace

theorem meets_copyForward_ones (hd : destination.toNat + count.toNat ≤ 2 ^ 32)
    (hlt : source < destination) :
    Meets (· = AddressSpace.ones source (destination.toNat - source.toNat + count.toNat)) (fun _ => False)
      (loop (copyForwardTurn destination source count) (count.toNat + 1)
        (0, AddressSpace.ones source (destination.toNat - source.toNat))) := by
  refine meets_loop (I := fun s => s.1 ≤ count ∧
      s.2 = AddressSpace.ones source (destination.toNat - source.toNat + s.1.toNat))
    (fun s => count.toNat - s.1.toNat) ?_ ⟨by bv_omega, rfl⟩ (by bv_omega)
  rintro ⟨i, now⟩ ⟨hi, hnow⟩
  dsimp only at hi hnow ⊢
  unfold copyForwardTurn
  refine meets_ite (fun hlt' => ?_) fun hge => ?_
  · dsimp only at hlt' ⊢
    have hread : now (source + i) = 1 := by
      rw [hnow]
      exact if_pos (by bv_omega)
    have hout : destination + i =
        source + BitVec.ofNat 32 (destination.toNat - source.toNat + i.toNat) := by bv_omega
    have hnext : (i + 1).toNat = i.toNat + 1 := by bv_omega
    rw [hread, hnow, hout, AddressSpace.store_ones source (by bv_omega)]
    exact ⟨⟨by bv_omega, by rw [hnext, Nat.add_assoc]⟩, by bv_omega⟩
  · have hi' : i = count := by
      dsimp only at hge
      bv_omega
    subst hi'
    exact hnow

theorem memcpy_ones (hd : destination.toNat + count.toNat ≤ 2 ^ 32) (hlt : source < destination) :
    memcpy (AddressSpace.ones source (destination.toNat - source.toNat)) destination source count =
      .ok (destination, AddressSpace.ones source (destination.toNat - source.toNat + count.toNat)) := by
  unfold memcpy
  rcases (meets_copyForward_ones hd hlt).ok_or_reported with ⟨after, hafter, rfl⟩ | ⟨e, -, he⟩
  · simp only [hafter]
    rfl
  · exact absurd he id

/-- `memcpy` does the work of `memmove` on every content exactly where the destination does not start
inside the source. -/
theorem memcpy_eq_memmove_iff (hd : destination.toNat + count.toNat ≤ 2 ^ 32)
    (hs : source.toNat + count.toNat ≤ 2 ^ 32) :
    (∀ space, memcpy space destination source count = memmove space destination source count) ↔
      ¬ (source < destination ∧ destination.toNat < source.toNat + count.toNat) := by
  constructor
  · rintro hall ⟨hlt, hinside⟩
    -- the byte of the source where the destination starts is zero, and a one has been copied over it
    have hcall := hall (AddressSpace.ones source (destination.toNat - source.toNat))
    rw [memcpy_ones hd hlt, memmove_eq _ hd hs] at hcall
    have hbyte := congrFun (Prod.mk.inj (Except.ok.inj hcall)).2 (destination + (destination - source))
    have hnew : AddressSpace.ones source (destination.toNat - source.toNat + count.toNat)
        (destination + (destination - source)) = 1 := by
      refine if_pos ?_
      bv_omega
    have hold : (AddressSpace.ones source (destination.toNat - source.toNat)).moved destination source
        0 count (destination + (destination - source)) = 0 := by
      have hoff : destination + (destination - source) - destination = destination - source := by
        bv_omega
      have hsource : source + (destination - source) = destination := by bv_omega
      rw [AddressSpace.moved, hoff, hsource, if_pos ⟨by bv_omega, by bv_omega⟩]
      refine if_neg ?_
      bv_omega
    rw [hnew, hold] at hbyte
    exact absurd hbyte (by decide)
  · intro hapart space
    rw [memcpy_eq space (unread_of_apart hs hapart), memmove_eq space hd hs]

theorem memcpy_overlap : ¬ ∀ space, memcpy space 3#32 1#32 4#32 = memmove space 3#32 1#32 4#32 :=
  (memcpy_eq_memmove_iff (by decide : (3#32).toNat + (4#32).toNat ≤ 2 ^ 32)
    (by decide : (1#32).toNat + (4#32).toNat ≤ 2 ^ 32)).not.mpr fun h => h (by decide)

/-! ## Filling -/

def AddressSpace.filled (destination : BitVec 32) (value : BitVec 8) (n : BitVec 32) : AddressSpace :=
  fun a => if a - destination < n then value else space a

theorem store_filled (value : BitVec 8) {i : BitVec 32} (h : i < i + 1) :
    (space.filled destination value i).store (destination + i) value =
      space.filled destination value (i + 1) := by
  funext a
  unfold AddressSpace.store AddressSpace.filled
  by_cases ha : a = destination + i
  · rw [if_pos ha, if_pos (by bv_omega)]
  · rw [if_neg ha]
    refine if_congr ?_ rfl rfl
    bv_omega

theorem meets_fill (value : BitVec 32) :
    Meets (· = space.filled destination (value.setWidth 8) count) (fun _ => False)
      (loop (fillTurn destination value count) (count.toNat + 1) (0, space)) := by
  refine meets_loop (I := fun s => s.1 ≤ count ∧
      s.2 = space.filled destination (value.setWidth 8) s.1)
    (fun s => count.toNat - s.1.toNat) ?_ ⟨by bv_omega, ?_⟩ (by bv_omega)
  · rintro ⟨i, now⟩ ⟨hi, hnow⟩
    dsimp only at hi hnow ⊢
    unfold fillTurn
    refine meets_ite (fun hlt => ?_) fun hge => ?_
    · dsimp only at hlt ⊢
      rw [hnow, store_filled space _ (by bv_omega)]
      exact ⟨⟨by bv_omega, rfl⟩, by bv_omega⟩
    · have hi' : i = count := by
        dsimp only at hge
        bv_omega
      subst hi'
      exact hnow
  · funext a
    exact (if_neg (by bv_omega)).symm

theorem memset_eq (value : BitVec 32) : memset space destination value count =
    .ok (destination, space.filled destination (value.setWidth 8) count) := by
  have hfill : Meets _ _ (loop (fillTurn destination value count) _ _) := meets_fill space value
  unfold memset
  rcases hfill.ok_or_reported with ⟨after, hafter, rfl⟩ | ⟨e, -, he⟩
  · simp only [hafter]
    rfl
  · exact absurd he id

/-! ## Comparing -/

def AddressSpace.bytes (a : BitVec 32) : (n : ℕ) → List (BitVec 8)
  | 0 => []
  | n + 1 => space a :: AddressSpace.bytes (a + 1) n

/-- The sign of the lexicographic order of unsigned bytes. -/
def compareBytes (xs ys : List (BitVec 8)) : BitVec 32 := if xs = ys then 0 else if xs < ys then -1 else 1

theorem compareBytes_cons_self (x : BitVec 8) (xs ys : List (BitVec 8)) :
    compareBytes (x :: xs) (x :: ys) = compareBytes xs ys := by
  unfold compareBytes
  have heq : x :: xs = x :: ys ↔ xs = ys := by simp
  have hlt : x :: xs < x :: ys ↔ xs < ys := by simp
  simp only [heq, hlt]

theorem compareBytes_cons_of_ne {x y : BitVec 8} (h : x ≠ y) (xs ys : List (BitVec 8)) :
    compareBytes (x :: xs) (y :: ys) = if x < y then -1 else 1 := by
  unfold compareBytes
  rw [if_neg fun heq => h (List.cons.inj heq).1]
  refine if_congr ?_ rfl rfl
  simp [List.cons_lt_cons_iff, h]

variable {left right : BitVec 32}

/-- `memcmp` compares its two ranges in the lexicographic order of unsigned bytes. -/
theorem memcmp_eq_compareBytes : memcmp space left right count =
    .ok (compareBytes (space.bytes left count.toNat) (space.bytes right count.toNat)) := by
  have hloop : Meets (· = compareBytes (space.bytes left count.toNat) (space.bytes right count.toNat))
      (fun _ => False) (memcmp space left right count) := by
    -- the bytes that have been passed are equal
    refine meets_loop (I := fun i => i ≤ count ∧
        compareBytes (space.bytes (left + i) (count.toNat - i.toNat))
          (space.bytes (right + i) (count.toNat - i.toNat)) =
        compareBytes (space.bytes left count.toNat) (space.bytes right count.toNat))
      (fun i => count.toNat - i.toNat) ?_ ⟨by bv_omega, ?_⟩ (by bv_omega)
    · rintro i ⟨hi, hrest⟩
      unfold compareTurn
      refine meets_ite (fun hlt => ?_) fun hge => ?_
      · have hsucc : count.toNat - i.toNat = count.toNat - (i + 1).toNat + 1 := by bv_omega
        rw [hsucc, AddressSpace.bytes, AddressSpace.bytes, BitVec.add_assoc, BitVec.add_assoc] at hrest
        refine meets_ite (fun hne => ?_) fun heq => ?_
        · rw [compareBytes_cons_of_ne hne] at hrest
          exact hrest
        · rw [of_not_not heq, compareBytes_cons_self] at hrest
          exact ⟨⟨by bv_omega, hrest⟩, by bv_omega⟩
      · have hzero : count.toNat - i.toNat = 0 := by bv_omega
        rw [hzero] at hrest
        exact hrest
    · rw [BitVec.ofNat_eq_ofNat, BitVec.add_zero, BitVec.add_zero]
      rfl
  rcases hloop.ok_or_reported with ⟨r, hr, rfl⟩ | ⟨e, -, he⟩
  · exact hr
  · exact absurd he id

end Riscv32
