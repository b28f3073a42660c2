import Riscv32Simulator.Loading.Attributes

/-! The section table of an ELF file: which tables `validate_sections` accepts, and with them which
attribute sections. -/

namespace Riscv32
open Checked Splice Tiling

section File

variable {file : List (BitVec 8)}

def sectionCount (file : List (BitVec 8)) : ℕ := (fileHalf file 48).toNat

def sectionAt (file : List (BitVec 8)) (i : ℕ) : ℕ := (fileWord file 32).toNat + i * 40

def sectionBytes (file : List (BitVec 8)) (p : ℕ) : List (BitVec 8) :=
  slice file (fileWord file (p + 16)).toNat (fileWord file (p + 20)).toNat

/-- No thread-local storage, in the file unless it has no bytes there, and attributes of RV32I. -/
structure SectionAccepted (file : List (BitVec 8)) (p : ℕ) : Prop where
  plain : fileWord file (p + 8) &&& 0x400#32 = 0
  inside : fileWord file (p + 4) ≠ 8#32 →
    (fileWord file (p + 16)).toNat + (fileWord file (p + 20)).toNat ≤ file.length
  attributes : fileWord file (p + 4) = 0x70000003#32 →
    AttributeSection Uleb32 (sectionBytes file p)

def SectionsAccepted (file : List (BitVec 8)) : Prop :=
  (fileHalf file 48 = 0 ∧ fileWord file 32 = 0 ∧ fileHalf file 50 = 0) ∨
    (fileHalf file 48 ≠ 0 ∧ (fileHalf file 46).toNat = 40 ∧
      sectionAt file (sectionCount file) ≤ file.length ∧ fileHalf file 50 < fileHalf file 48 ∧
      ∀ i < sectionCount file, SectionAccepted file (sectionAt file i))

theorem meets_sectionTurn {i : ℕ} (h : sectionAt file i + 40 ≤ file.length) :
    Meets (fun _ => SectionAccepted file (sectionAt file i))
      (fun _ => ¬ SectionAccepted file (sectionAt file i))
      (sectionTurn file (fileWord file 32).toNat i) := by
  have hshdr : (fileWord file 32).toNat + i * elfShSize = sectionAt file i := rfl
  rw [sectionTurn, hshdr]
  refine (meets_u32 (by omega)).bind fun type htype => ?_
  refine (meets_u32 (by omega)).bind fun start hstart => ?_
  refine (meets_u32 (by omega)).bind fun length hlength => ?_
  refine (meets_u32 (by omega)).bind fun flags hflags => ?_
  refine (meets_rejectIf fun htls => ?_).bind fun _ htls => ?_
  · exact fun hc => htls (hflags ▸ hc.plain)
  refine (meets_rejectIf fun hrange => ?_).bind fun _ hrange => ?_
  · rw [Bool.not_eq_true', ← Bool.not_eq_true, range_iff, htype, hstart, hlength] at hrange
    exact fun hc => hrange.2 (hc.inside hrange.1)
  rw [not_and, Bool.not_eq_true', Bool.not_eq_false, range_iff, htype, hstart, hlength] at hrange
  rw [htype, hstart, hlength]
  have hplain := hflags ▸ not_not.mp htls
  refine meets_ite (fun ht => ?_) fun ht => ?_
  · refine (meets_attributes (hrange ?_)).mono (fun _ ha => ⟨hplain, hrange, fun _ => ha⟩)
      fun _ hno hc => hno (hc.attributes ht)
    rw [ht]
    decide
  · exact meets_pure ⟨hplain, hrange, fun hc => absurd hc ht⟩

theorem sectionAt_inside {i : ℕ} (h : sectionAt file (sectionCount file) ≤ file.length)
    (hi : i < sectionCount file) : sectionAt file i + 40 ≤ file.length := by
  have hmul : (i + 1) * 40 ≤ sectionCount file * 40 := Nat.mul_le_mul_right 40 hi
  rw [sectionAt] at h ⊢
  omega

theorem meets_validateSections (hfile : 52 ≤ file.length) :
    Meets (fun _ => SectionsAccepted file) (fun _ => ¬ SectionsAccepted file)
      (validateSections file) := by
  refine (meets_u32 (by omega)).bind fun offset hoffset => ?_
  refine (meets_u16 (by omega)).bind fun count hcount => ?_
  refine (meets_u16 (by omega)).bind fun names hnames => ?_
  rw [hoffset, hcount, hnames]
  refine meets_ite (fun hnone => meets_pure (.inl hnone)) fun hsome => ?_
  have hor : SectionsAccepted file ↔ fileHalf file 48 ≠ 0 ∧ (fileHalf file 46).toNat = 40 ∧
      sectionAt file (sectionCount file) ≤ file.length ∧ fileHalf file 50 < fileHalf file 48 ∧
      ∀ i < sectionCount file, SectionAccepted file (sectionAt file i) :=
    or_iff_right hsome
  rw [hor]
  refine (meets_rejectIf fun hzero => ?_).bind fun _ hzero => ?_
  · exact fun hc => hc.1 hzero
  refine (meets_u16 (by omega)).bind fun shentsize hsize => ?_
  rw [hsize]
  refine (meets_rejectIf fun hne => ?_).bind fun _ hsh => ?_
  · exact fun hc => hne hc.2.1
  refine (meets_rejectIf fun htable => ?_).bind fun _ htable => ?_
  · rw [Bool.not_eq_true', ← Bool.not_eq_true, range_iff] at htable
    exact fun hc => htable.elim (fun h => h hc.2.2.1) fun h => BitVec.not_le.mpr hc.2.2.2.1 h
  rw [not_or, Bool.not_eq_true', Bool.not_eq_false, range_iff] at htable
  -- all sections before the current one are accepted
  refine (meets_foldlM_range
    (I := fun n _ => ∀ i < n, SectionAccepted file (sectionAt file i))
    (fun i hi _ hbefore => ?_) nofun).imp fun _ hall => ⟨hzero, not_not.mp hsh, htable.1,
      BitVec.not_le.mp htable.2, hall⟩
  refine (meets_sectionTurn (sectionAt_inside htable.1 hi)).mono (fun _ hlast k hk => ?_)
    fun _ hno hc => hno (hc.2.2.2.2 i hi)
  rcases Nat.lt_succ_iff_lt_or_eq.mp hk with hlt | rfl
  · exact hbefore k hlt
  · exact hlast

end File

end Riscv32
