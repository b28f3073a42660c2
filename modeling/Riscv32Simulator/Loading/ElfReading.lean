import Riscv32Simulator.Source.Elf
import Riscv32Simulator.Source.MemoryLaws

/-! What the ELF loader reads of a file: numbers, texts and copies. -/

namespace Riscv32
open Checked Splice

section File

variable {file : List (BitVec 8)} {E : ProgramError → Prop}

/-! ## Numbers -/

def fileByte (file : List (BitVec 8)) (p : ℕ) : BitVec 8 := file.getD p 0

def fileHalf (file : List (BitVec 8)) (p : ℕ) : BitVec 16 := fileByte file (p + 1) ++ fileByte file p

def fileWord (file : List (BitVec 8)) (p : ℕ) : BitVec 32 :=
  fileByte file (p + 3) ++ fileByte file (p + 2) ++ fileByte file (p + 1) ++ fileByte file p

theorem meets_byteAt {p : ℕ} (h : p < file.length) :
    Meets (· = fileByte file p) E (byteAt file p) := meets_readAt h 0

theorem meets_u16 {p : ℕ} (h : p + 2 ≤ file.length) :
    Meets (· = fileHalf file p) E (u16 file p) := by
  refine (meets_byteAt (by omega)).bind fun b0 h0 => ?_
  refine (meets_byteAt (by omega)).bind fun b1 h1 => meets_pure ?_
  rw [h0, h1, fileHalf]
  apply BitVec.eq_of_getLsbD_eq
  intro i hi
  simp only [BitVec.getLsbD_append, BitVec.getLsbD_setWidth, BitVec.getLsbD_or,
    BitVec.getLsbD_shiftLeft]
  interval_cases i <;> simp

theorem meets_u32 {p : ℕ} (h : p + 4 ≤ file.length) :
    Meets (· = fileWord file p) E (u32 file p) := by
  refine (meets_byteAt (by omega)).bind fun b0 h0 => ?_
  refine (meets_byteAt (by omega)).bind fun b1 h1 => ?_
  refine (meets_byteAt (by omega)).bind fun b2 h2 => ?_
  refine (meets_byteAt (by omega)).bind fun b3 h3 => meets_pure ?_
  rw [word_eq_append, h0, h1, h2, h3, fileWord]

theorem range_iff {offset length size : ℕ} :
    range offset length size = true ↔ offset + length ≤ size := by
  rw [range, Bool.and_eq_true, decide_eq_true_eq, decide_eq_true_eq]
  omega

/-! ## Windows -/

def window (file : List (BitVec 8)) (p q : ℕ) : List (BitVec 8) := slice file p (q - p)

theorem window_eq_nil {p q : ℕ} (h : q ≤ p) : window file p q = [] := by
  rw [window, Nat.sub_eq_zero_of_le h, slice, List.take_zero]

theorem length_window {p q : ℕ} (h : q ≤ file.length) : (window file p q).length = q - p := by
  rw [window, slice, List.length_take, List.length_drop]
  omega

theorem window_cons {p q : ℕ} (h : p < q) (hq : q ≤ file.length) :
    window file p q = fileByte file p :: window file (p + 1) q := by
  rw [window, show q - p = q - (p + 1) + 1 by omega, slice_succ file 0 (by omega), fileByte, window]

theorem window_split {p m q : ℕ} (h : p ≤ m) (hm : m ≤ q) :
    window file p q = window file p m ++ window file m q := by
  rw [window, window, window, slice, slice, slice, show q - p = (m - p) + (q - m) by omega,
    List.take_add, List.drop_drop, Nat.add_sub_cancel' h]

theorem window_parts {p q : ℕ} (hq : q ≤ file.length) {bs r : List (BitVec 8)}
    (h : window file p q = bs ++ r) :
    bs = window file p (p + bs.length) ∧ r = window file (p + bs.length) q := by
  cases bs with
  | nil => exact ⟨(window_eq_nil le_rfl).symm, h.symm⟩
  | cons b bs =>
    have hl := congrArg List.length h
    rw [length_window hq, List.length_append, List.length_cons] at hl
    rw [List.length_cons]
    rw [window_split (show p ≤ p + (bs.length + 1) by omega) (by omega)] at h
    exact (List.append_inj h.symm (by rw [length_window (by omega), List.length_cons]; omega))

theorem toNat_fileWord {p : ℕ} (h : p + 4 ≤ file.length) :
    (fileWord file p).toNat = LittleEndian.value (window file p (p + 4)) := by
  rw [window_cons (by omega) h, window_cons (by omega) h, window_cons (by omega) h,
    window_cons (by omega) h, window_eq_nil (by omega), fileWord]
  simp only [toNat_append_byte, LittleEndian.value, Nat.add_assoc, Nat.reduceAdd]
  omega

/-! ## Texts and copies -/

theorem meets_memchrNul {p n : ℕ} (h : p + n ≤ file.length) :
    Meets (fun r => (r = none → 0 ∉ window file p (p + n)) ∧ ∀ q, r = some q →
        p ≤ q ∧ q < p + n ∧ fileByte file q = 0 ∧ 0 ∉ window file p q) E
      (memchrNul file p n) := by
  induction n generalizing p with
  | zero =>
    refine meets_pure ⟨fun _ => ?_, nofun⟩
    rw [window_eq_nil (by omega)]
    exact List.not_mem_nil
  | succ n ih =>
    refine (meets_byteAt (by omega)).bind fun b hb => ?_
    refine meets_ite (fun h0 => meets_pure ⟨nofun, ?_⟩) fun h0 => ?_
    · intro q hq
      obtain rfl := Option.some.inj hq
      refine ⟨le_rfl, by omega, hb.symm.trans h0, ?_⟩
      rw [window_eq_nil le_rfl]
      exact List.not_mem_nil
    · have hne : (0 : BitVec 8) ≠ fileByte file p := fun hc => h0 (hb.trans hc.symm)
      refine (ih (by omega : p + 1 + n ≤ file.length)).imp fun r hr => ⟨fun hnone => ?_, ?_⟩
      · rw [window_cons (by omega) h, List.mem_cons, not_or,
          show p + (n + 1) = p + 1 + n by omega]
        exact ⟨hne, hr.1 hnone⟩
      · intro q hq
        obtain ⟨h1, h2, h3, h4⟩ := hr.2 q hq
        refine ⟨by omega, by omega, h3, ?_⟩
        rw [window_cons (by omega) (by omega), List.mem_cons, not_or]
        exact ⟨hne, h4⟩

theorem meets_strcmpEq {p q : ℕ} (hpq : p ≤ q) (hq : q < file.length) (h0 : fileByte file q = 0)
    (hbefore : 0 ∉ window file p q) {text : List (BitVec 8)} (htext : 0 ∉ text) :
    Meets (fun r => r = true ↔ window file p q = text) E (strcmpEq file p text) := by
  induction text generalizing p with
  | nil =>
    refine (meets_byteAt (by omega)).bind fun b hb => meets_pure ?_
    rw [decide_eq_true_eq, hb]
    rcases Nat.eq_or_lt_of_le hpq with rfl | hlt
    · exact iff_of_true h0 (window_eq_nil le_rfl)
    · rw [window_cons hlt hq.le] at hbefore ⊢
      exact iff_of_false (fun hc => hbefore (List.mem_cons.mpr (.inl hc.symm))) nofun
  | cons c text ih =>
    rw [List.mem_cons, not_or] at htext
    refine (meets_byteAt (by omega)).bind fun b hb => ?_
    rcases Nat.eq_or_lt_of_le hpq with rfl | hlt
    · refine meets_ite (fun _ => meets_pure (iff_of_false nofun ?_)) fun hc => ?_
      · rw [window_eq_nil le_rfl]
        nofun
      · exact absurd (h0.symm.trans (hb.symm.trans (not_not.mp hc))) htext.1
    · rw [window_cons hlt hq.le] at hbefore ⊢
      rw [List.mem_cons, not_or] at hbefore
      refine meets_ite (fun hc => meets_pure (iff_of_false nofun fun he => hc ?_)) fun hc => ?_
      · exact hb.trans (List.cons.inj he).1
      · refine (ih (by omega) hbefore.2 htext.2).imp fun r hr => hr.trans ?_
        rw [List.cons.injEq, ← hb, not_not.mp hc, eq_self_iff_true, true_and]

theorem meets_memcmpEq {p : ℕ} {text : List (BitVec 8)} (h : p + text.length ≤ file.length) :
    Meets (fun r => r = true ↔ window file p (p + text.length) = text) E
      (memcmpEq file p text) := by
  induction text generalizing p with
  | nil => exact meets_pure (iff_of_true rfl (window_eq_nil le_rfl))
  | cons c text ih =>
    rw [List.length_cons] at h ⊢
    refine (meets_byteAt (by omega)).bind fun b hb => ?_
    refine (ih (p := p + 1) (by omega)).bind fun r hr => meets_pure ?_
    rw [window_cons (by omega) h, List.cons.injEq, ← hb, Bool.and_eq_true, decide_eq_true_eq,
      show p + (text.length + 1) = p + 1 + text.length by omega, hr]

theorem meets_memcpyFrom {memory : Memory} (hm : memory.bytes.isSome) {dest source n : ℕ}
    (hs : source + n ≤ file.length) (hd : dest + n ≤ memory.size) :
    Meets (· = memory.splice dest (slice file source n)) E
      (memcpyFrom file memory dest source n) := by
  induction n generalizing memory dest source with
  | zero => exact meets_pure (Memory.splice_nil memory dest).symm
  | succ n ih =>
    refine (meets_byteAt (by omega)).bind fun b hb => ?_
    rw [if_pos (by rw [Memory.length_contents hm]; omega)]
    have hset : (memory.setByte dest b).bytes.isSome := by
      rw [Memory.setByte_eq_splice, Memory.isSome_splice]
      exact hm
    have hsize : (memory.setByte dest b).size = memory.size := rfl
    refine (ih hset (by omega) (by omega)).imp fun m' hm' => ?_
    rw [hm', slice_succ _ 0 (by omega), Memory.splice_cons, hb]
    rfl

end File

end Riscv32
