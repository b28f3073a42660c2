import Mathlib

/-! Natural numbers written as little-endian bytes. -/

namespace LittleEndian

def value : List (BitVec 8) → ℕ
  | [] => 0
  | b :: bs => b.toNat + 256 * value bs

def bytes : ℕ → ℕ → List (BitVec 8)
  | 0, _ => []
  | n + 1, v => BitVec.ofNat 8 v :: bytes n (v / 256)

@[simp] theorem length_bytes (n v : ℕ) : (bytes n v).length = n := by
  induction n generalizing v with
  | zero => rfl
  | succ n ih => rw [bytes, List.length_cons, ih]

theorem value_lt (bs : List (BitVec 8)) : value bs < 256 ^ bs.length := by
  induction bs with
  | nil => simp [value]
  | cons b bs ih =>
    have hb := b.isLt
    rw [value, List.length_cons, pow_succ]
    omega

theorem value_bytes (n v : ℕ) : value (bytes n v) = v % 256 ^ n := by
  induction n generalizing v with
  | zero => simp [value, bytes, Nat.mod_one]
  | succ n ih =>
    rw [bytes, value, ih, BitVec.toNat_ofNat]
    change v % 256 + 256 * (v / 256 % 256 ^ n) = v % 256 ^ (n + 1)
    rw [pow_succ', Nat.mod_mul]

theorem bytes_value (bs : List (BitVec 8)) : bytes bs.length (value bs) = bs := by
  induction bs with
  | nil => rfl
  | cons b bs ih =>
    have hb := b.isLt
    rw [List.length_cons, bytes, value]
    congr 1
    · apply BitVec.eq_of_toNat_eq
      rw [BitVec.toNat_ofNat]
      omega
    · rw [show (b.toNat + 256 * value bs) / 256 = value bs by omega, ih]

theorem bytes_mod (n v : ℕ) : bytes n (v % 256 ^ n) = bytes n v := by
  have hh := bytes_value (bytes n v)
  rwa [length_bytes, value_bytes] at hh

theorem getD_bytes {n i : ℕ} (h : i < n) (v : ℕ) (d : BitVec 8) :
    (bytes n v).getD i d = BitVec.ofNat 8 (v / 256 ^ i) := by
  induction n generalizing v i with
  | zero => omega
  | succ n ih =>
    cases i with
    | zero => simp [bytes]
    | succ i =>
      rw [bytes, List.getD_cons_succ, ih (by omega), Nat.div_div_eq_div_mul, pow_succ']

end LittleEndian
