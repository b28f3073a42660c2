import Riscv32Simulator.Loading.ElfImage

/-! The order of the program headers of an ELF file makes no difference to what is loaded. -/

namespace Riscv32
open Checked Splice

def tableBytes (file : List (BitVec 8)) : Set ℕ :=
  Set.Ico (headerAt file 0) (headerAt file (headerCount file))

/-- The files differ in the order of their program headers and in nothing else. -/
structure HeadersPermuted (file file' : List (BitVec 8)) (σ : Equiv.Perm (Fin (headerCount file))) :
    Prop where
  length : file'.length = file.length
  outside : ∀ p ∉ tableBytes file, fileByte file' p = fileByte file p
  entries : ∀ i : Fin (headerCount file), ∀ k < 32, fileByte file' (headerAt file i + k) =
    fileByte file (headerAt file (σ i) + k)

/-- Nothing else that is read lies in the program header table. -/
structure TableApart (file : List (BitVec 8)) : Prop where
  header : Disjoint (Set.Ico 0 52) (tableBytes file)
  sections : Disjoint (Set.Ico (sectionAt file 0) (sectionAt file (sectionCount file)))
    (tableBytes file)
  attributes : ∀ i < sectionCount file, fileWord file (sectionAt file i + 4) = 0x70000003#32 →
    Disjoint (Set.Ico (fileWord file (sectionAt file i + 16)).toNat
      ((fileWord file (sectionAt file i + 16)).toNat +
        (fileWord file (sectionAt file i + 20)).toNat)) (tableBytes file)
  segments : ∀ i, ∀ s ∈ segmentAt file i,
    Disjoint (Set.Ico s.offset (s.offset + s.filesz)) (tableBytes file)

/-! ## Equal bytes -/

section Congruence

variable {file file' : List (BitVec 8)} {p p' : ℕ}

theorem fileHalf_congr (h : ∀ k < 2, fileByte file' (p' + k) = fileByte file (p + k)) :
    fileHalf file' p' = fileHalf file p := by
  rw [fileHalf, fileHalf, h 1 (by omega)]
  congr 1
  exact h 0 (by omega)

theorem fileWord_congr (h : ∀ k < 4, fileByte file' (p' + k) = fileByte file (p + k)) :
    fileWord file' p' = fileWord file p := by
  rw [fileWord, fileWord, h 1 (by omega), h 2 (by omega), h 3 (by omega)]
  congr 1
  exact h 0 (by omega)

theorem slice_congr (hlength : file'.length = file.length) {n : ℕ}
    (h : ∀ k < n, fileByte file' (p + k) = fileByte file (p + k)) :
    slice file' p n = slice file p n := by
  apply List.ext_getElem?
  intro k
  rw [getElem?_slice, getElem?_slice]
  refine ite_congr rfl (fun hk => ?_) fun _ => rfl
  by_cases hin : p + k < file.length
  · have hk' := h k hk
    rw [fileByte, fileByte, List.getD_eq_getElem _ _ (hlength ▸ hin),
      List.getD_eq_getElem _ _ hin] at hk'
    rw [List.getElem?_eq_getElem (hlength ▸ hin), List.getElem?_eq_getElem hin, hk']
  · rw [List.getElem?_eq_none (by omega), List.getElem?_eq_none (by omega)]

theorem EntryAccepted.congr (hlength : file'.length = file.length) {ramSize : ℕ}
    (h : ∀ k, k + 4 ≤ 32 → fileWord file' (p' + k) = fileWord file (p + k))
    (ha : EntryAccepted file ramSize p) : EntryAccepted file' ramSize p' := by
  have h0 : fileWord file' p' = fileWord file p := h 0 (by omega)
  obtain ⟨h1, h2, h3, h4, h5⟩ := ha
  rw [← h0] at h1
  rw [← h0, ← h 16 (by omega), ← h 20 (by omega), ← h 4 (by omega), ← hlength] at h2
  rw [← h0, ← h 12 (by omega), ← h 8 (by omega)] at h3
  rw [← h0, ← h 28 (by omega), ← h 8 (by omega), ← h 4 (by omega)] at h4
  rw [← h0, ← h 8 (by omega), ← h 20 (by omega)] at h5
  exact ⟨h1, h2, h3, h4, h5⟩

theorem segmentOf_congr (h : ∀ k, k + 4 ≤ 32 → fileWord file' (p' + k) = fileWord file (p + k)) :
    segmentOf file' p' = segmentOf file p := by
  rw [segmentOf, segmentOf, h 4 (by omega), h 8 (by omega), h 16 (by omega), h 20 (by omega),
    h 24 (by omega)]

theorem SectionAccepted.congr (hlength : file'.length = file.length)
    (h : ∀ k, k + 4 ≤ 40 → fileWord file' (p + k) = fileWord file (p + k))
    (hbytes : fileWord file (p + 4) = 0x70000003#32 → sectionBytes file' p = sectionBytes file p)
    (ha : SectionAccepted file p) : SectionAccepted file' p := by
  obtain ⟨h1, h2, h3⟩ := ha
  rw [← h 8 (by omega)] at h1
  rw [← h 4 (by omega), ← h 16 (by omega), ← h 20 (by omega), ← hlength] at h2
  refine ⟨h1, h2, fun ht => ?_⟩
  rw [h 4 (by omega)] at ht
  rw [hbytes ht]
  exact h3 ht

end Congruence

/-! ## Permuted headers -/

section Permuted

variable {file file' : List (BitVec 8)} {σ : Equiv.Perm (Fin (headerCount file))}

def extended (σ : Equiv.Perm (Fin (headerCount file))) : Equiv.Perm ℕ :=
  σ.extendDomain Fin.equivSubtype

theorem extended_of_lt {i : ℕ} (hi : i < headerCount file) : extended σ i = σ ⟨i, hi⟩ := by
  have hh := Equiv.Perm.extendDomain_apply_subtype σ Fin.equivSubtype (b := i) hi
  exact hh

theorem extended_of_not_lt {i : ℕ} (hi : ¬ i < headerCount file) : extended σ i = i :=
  Equiv.Perm.extendDomain_apply_not_subtype σ Fin.equivSubtype hi

theorem extended_lt_iff (i : ℕ) : extended σ i < headerCount file ↔ i < headerCount file := by
  by_cases hi : i < headerCount file
  · rw [extended_of_lt hi]
    exact iff_of_true (σ ⟨i, hi⟩).isLt hi
  · rw [extended_of_not_lt hi]

section Apart

variable (h : HeadersPermuted file file' σ)
include h

theorem HeadersPermuted.byte {a b : ℕ} (hapart : Disjoint (Set.Ico a b) (tableBytes file)) {p : ℕ}
    (ha : a ≤ p) (hb : p < b) : fileByte file' p = fileByte file p :=
  h.outside p (Set.disjoint_left.mp hapart ⟨ha, hb⟩)

theorem HeadersPermuted.word {a b : ℕ} (hapart : Disjoint (Set.Ico a b) (tableBytes file)) {p : ℕ}
    (ha : a ≤ p) (hb : p + 4 ≤ b) : fileWord file' p = fileWord file p :=
  fileWord_congr fun _ _ => h.byte hapart (by omega) (by omega)

theorem HeadersPermuted.half {a b : ℕ} (hapart : Disjoint (Set.Ico a b) (tableBytes file)) {p : ℕ}
    (ha : a ≤ p) (hb : p + 2 ≤ b) : fileHalf file' p = fileHalf file p :=
  fileHalf_congr fun _ _ => h.byte hapart (by omega) (by omega)

theorem HeadersPermuted.entryWord {i : ℕ} (hi : i < headerCount file) {k : ℕ} (hk : k + 4 ≤ 32) :
    fileWord file' (headerAt file i + k) = fileWord file (headerAt file (extended σ i) + k) := by
  rw [extended_of_lt hi]
  refine fileWord_congr fun j hj => ?_
  rw [Nat.add_assoc, Nat.add_assoc]
  exact h.entries ⟨i, hi⟩ (k + j) (by omega)

variable (hapart : TableApart file)
include hapart

theorem HeadersPermuted.count_eq : headerCount file' = headerCount file :=
  congrArg BitVec.toNat (h.half hapart.header (by omega) (by omega))

theorem HeadersPermuted.headerAt_eq (i : ℕ) : headerAt file' i = headerAt file i := by
  rw [headerAt, headerAt, h.word hapart.header (by omega) (by omega)]

theorem HeadersPermuted.segmentAt_eq (i : ℕ) :
    segmentAt file' i = segmentAt file (extended σ i) := by
  rw [segmentAt, segmentAt, h.count_eq hapart, h.headerAt_eq hapart]
  by_cases hi : i < headerCount file
  · have h0 : fileWord file' (headerAt file i) = fileWord file (headerAt file (extended σ i)) :=
      h.entryWord hi (k := 0) (by omega)
    rw [h0, segmentOf_congr fun k hk => h.entryWord hi hk]
    exact if_congr (and_congr_left' (extended_lt_iff i).symm) rfl rfl
  · rw [if_neg fun hc => hi hc.1, if_neg fun hc => hi ((extended_lt_iff i).mp hc.1)]

/-! ## Accepted together -/

theorem HeadersPermuted.headerAccepted (ha : HeaderAccepted file) : HeaderAccepted file' := by
  have hlen := h.length
  have hword {p : ℕ} (hp : p + 4 ≤ 52) : fileWord file' p = fileWord file p :=
    h.word hapart.header (Nat.zero_le p) hp
  have hhalf {p : ℕ} (hp : p + 2 ≤ 52) : fileHalf file' p = fileHalf file p :=
    h.half hapart.header (Nat.zero_le p) hp
  have hbyte {p : ℕ} (hp : p < 52) : fileByte file' p = fileByte file p :=
    h.byte hapart.header (Nat.zero_le p) hp
  obtain ⟨h1, h2, h3, h4, h5, h6, h7, h8⟩ := ha
  refine ⟨hlen ▸ h1, ?_, ?_, ?_, ?_, ?_, ?_, ?_⟩
  · rw [window, slice_congr hlen fun k hk => hbyte (by omega)]
    exact h2
  · rwa [hbyte (by omega), hbyte (by omega), hbyte (by omega)]
  · rwa [hhalf (by omega), hhalf (by omega), hword (by omega)]
  · rwa [hword (by omega)]
  · rwa [hhalf (by omega), hhalf (by omega)]
  · rwa [hhalf (by omega), h.count_eq hapart]
  · rwa [TableInside, h.count_eq hapart, h.headerAt_eq hapart, hlen]

theorem HeadersPermuted.sectionCount_eq : sectionCount file' = sectionCount file :=
  congrArg BitVec.toNat (h.half hapart.header (by omega) (by omega))

theorem HeadersPermuted.sectionAt_eq (i : ℕ) : sectionAt file' i = sectionAt file i := by
  rw [sectionAt, sectionAt, h.word hapart.header (by omega) (by omega)]

theorem HeadersPermuted.sectionWord {i : ℕ} (hi : i < sectionCount file) {k : ℕ}
    (hk : k + 4 ≤ 40) :
    fileWord file' (sectionAt file i + k) = fileWord file (sectionAt file i + k) := by
  have hmul : (i + 1) * 40 ≤ sectionCount file * 40 := Nat.mul_le_mul_right 40 hi
  refine h.word hapart.sections ?_ ?_
  · unfold sectionAt
    omega
  · unfold sectionAt
    omega

theorem HeadersPermuted.sectionBytes_eq {i : ℕ} (hi : i < sectionCount file)
    (htype : fileWord file (sectionAt file i + 4) = 0x70000003#32) :
    sectionBytes file' (sectionAt file i) = sectionBytes file (sectionAt file i) := by
  rw [sectionBytes, sectionBytes, h.sectionWord hapart hi (by omega),
    h.sectionWord hapart hi (by omega)]
  exact slice_congr h.length fun k hk => h.byte (hapart.attributes i hi htype) (by omega) (by omega)

theorem HeadersPermuted.sectionsAccepted (ha : SectionsAccepted file) :
    SectionsAccepted file' := by
  have hhalf {p : ℕ} (hp : p + 2 ≤ 52) : fileHalf file' p = fileHalf file p :=
    h.half hapart.header (Nat.zero_le p) hp
  rw [SectionsAccepted, hhalf (by omega), hhalf (by omega), hhalf (by omega),
    h.word hapart.header (Nat.zero_le 32) (by omega), h.sectionCount_eq hapart,
    h.sectionAt_eq hapart, h.length]
  refine ha.imp id fun ⟨h1, h2, h3, h4, h5⟩ => ⟨h1, h2, h3, h4, fun i hi => ?_⟩
  rw [h.sectionAt_eq hapart]
  exact (h5 i hi).congr h.length (fun k hk => h.sectionWord hapart hi hk)
    (h.sectionBytes_eq hapart hi)

theorem HeadersPermuted.elfAccepted {ramSize : ℕ} (ha : ElfAccepted file ramSize) :
    ElfAccepted file' ramSize := by
  have hentry : fileWord file' 24 = fileWord file 24 :=
    h.word hapart.header (by omega) (by omega)
  refine ⟨h.headerAccepted hapart ha.header, h.sectionsAccepted hapart ha.sections, fun i hi => ?_,
    fun i j hij => ?_, ?_, ha.ramSize⟩
  · rw [h.count_eq hapart] at hi
    rw [h.headerAt_eq hapart]
    exact (ha.entries _ ((extended_lt_iff i).mpr hi)).congr h.length fun k hk => h.entryWord hi hk
  · rw [h.segmentAt_eq hapart, h.segmentAt_eq hapart]
    exact ha.disjoint _ _ fun hc => hij ((extended σ).injective hc)
  · rw [hentry]
    obtain ⟨h4, i, hholds⟩ := ha.entry
    refine ⟨h4, (extended σ).symm i, ?_⟩
    rwa [h.segmentAt_eq hapart, Equiv.apply_symm_apply]

/-! ## The other way round -/

theorem HeadersPermuted.tableBytes_eq : tableBytes file' = tableBytes file := by
  rw [tableBytes, tableBytes, h.count_eq hapart, h.headerAt_eq hapart, h.headerAt_eq hapart]

theorem HeadersPermuted.symm : ∃ σ', HeadersPermuted file' file σ' := by
  refine ⟨(finCongr (h.count_eq hapart)).trans (σ.symm.trans (finCongr (h.count_eq hapart).symm)),
    h.length.symm, fun p hp => ?_, fun i k hk => ?_⟩
  · rw [h.tableBytes_eq hapart] at hp
    exact (h.outside p hp).symm
  · rw [h.headerAt_eq hapart, h.headerAt_eq hapart]
    have hh := h.entries (σ.symm (finCongr (h.count_eq hapart) i)) k hk
    rw [Equiv.apply_symm_apply] at hh
    exact hh.symm

theorem HeadersPermuted.tableApart : TableApart file' := by
  have htable := h.tableBytes_eq hapart
  refine ⟨?_, ?_, fun i hi htype => ?_, fun i s hs => ?_⟩
  · rw [htable]
    exact hapart.header
  · rw [htable, h.sectionCount_eq hapart, h.sectionAt_eq hapart, h.sectionAt_eq hapart]
    exact hapart.sections
  · rw [h.sectionCount_eq hapart] at hi
    rw [h.sectionAt_eq hapart, h.sectionWord hapart hi (by omega)] at htype
    rw [htable, h.sectionAt_eq hapart, h.sectionWord hapart hi (by omega),
      h.sectionWord hapart hi (by omega)]
    exact hapart.attributes i hi htype
  · rw [h.segmentAt_eq hapart] at hs
    rw [htable]
    exact hapart.segments _ s hs

theorem HeadersPermuted.elfAccepted_iff {ramSize : ℕ} :
    ElfAccepted file' ramSize ↔ ElfAccepted file ramSize := by
  obtain ⟨σ', hsymm⟩ := h.symm hapart
  exact ⟨hsymm.elfAccepted (h.tableApart hapart), h.elfAccepted hapart⟩

/-! ## The same image -/

/-- The image is the same in everything but the copy of the file. -/
structure SameImage (p p' : Program) : Prop where
  memory : p'.memory = p.memory
  loadAddress : p'.loadAddress = p.loadAddress
  entry : p'.entry = p.entry
  imageSize : p'.imageSize = p.imageSize

theorem HeadersPermuted.memory_eq {ramSize : ℕ} {p p' : Program}
    (hp : IsElfImage file ramSize p) (hp' : IsElfImage file' ramSize p') :
    p'.memory = p.memory := by
  have hsome := memoryReady_isSome hp.ready
  have hsome' := memoryReady_isSome hp'.ready
  refine Memory.ext_byte hsome' hsome (hp'.size.trans hp.size.symm) fun a _ => ?_
  by_cases hbacked : ∃ i, ∃ s ∈ segmentAt file' i, a ∈ s.backed
  · obtain ⟨i, s, hs, ha⟩ := hbacked
    have h1 := hp'.byte i s hs a ha
    rw [h.segmentAt_eq hapart] at hs
    have h2 := hp.byte _ s hs a ha
    have h3 : fileByte file' (s.offset + (a - s.address)) =
        fileByte file (s.offset + (a - s.address)) := by
      have hlo := ha.1
      have hhi := ha.2
      exact h.byte (hapart.segments _ s hs) (by omega) (by omega)
    rw [fileByte, fileByte, List.getD_eq_getElem?_getD, List.getD_eq_getElem?_getD, h1, h2] at h3
    exact h3
  · have hnone : ∀ i, ∀ s ∈ segmentAt file' i, a ∉ s.backed := fun i s hs ha =>
      hbacked ⟨i, s, hs, ha⟩
    rw [hp'.zero a hnone, hp.zero a fun i s hs => hnone ((extended σ).symm i) s ?_]
    rwa [h.segmentAt_eq hapart, Equiv.apply_symm_apply]

theorem HeadersPermuted.sameImage {ramSize : ℕ} {p p' : Program}
    (hp : IsElfImage file ramSize p) (hp' : IsElfImage file' ramSize p') : SameImage p p' := by
  have hspan (lo hi : ℕ) : (lo ≤ p'.loadAddress.toNat ∧
      p'.loadAddress.toNat + p'.imageSize ≤ hi) ↔
      lo ≤ p.loadAddress.toNat ∧ p.loadAddress.toNat + p.imageSize ≤ hi := by
    rw [hp'.span, hp.span]
    constructor
    · intro hall i s hs
      refine hall ((extended σ).symm i) s ?_
      rwa [h.segmentAt_eq hapart, Equiv.apply_symm_apply]
    · intro hall i s hs
      rw [h.segmentAt_eq hapart] at hs
      exact hall _ s hs
  have h1 := (hspan _ _).mp ⟨le_rfl, le_rfl⟩
  have h2 := (hspan _ _).mpr ⟨le_rfl, le_rfl⟩
  refine ⟨h.memory_eq hapart hp hp', BitVec.eq_of_toNat_eq (by omega), ?_, by omega⟩
  rw [hp'.entry, hp.entry]
  exact h.word hapart.header (by omega) (by omega)

end Apart

end Permuted

/-- Two files that differ in the order of their program headers are both loaded, with the same
image, or both refused. -/
theorem loadElf_header_order {file file' : List (BitVec 8)}
    (σ : Equiv.Perm (Fin (headerCount file))) (h : HeadersPermuted file file' σ)
    (hapart : TableApart file) (ramSize : ℕ) (calloc : Bool) :
    (∃ p p', loadElf file ramSize calloc = .ok p ∧ loadElf file' ramSize calloc = .ok p' ∧
      SameImage p p') ∨
    ∃ e e', loadElf file ramSize calloc = .error (.reported e) ∧
      loadElf file' ramSize calloc = .error (.reported e') := by
  have hiff : ElfAccepted file' ramSize ↔ ElfAccepted file ramSize := h.elfAccepted_iff hapart
  -- acceptance does not see the order, so both are loaded or both refused
  rcases (meets_loadElf file ramSize calloc).ok_or_reported with
    ⟨p, hok, himage, haccepted⟩ | ⟨e, herror, hno⟩
  · rcases (meets_loadElf file' ramSize calloc).ok_or_reported with
      ⟨p', hok', himage', -⟩ | ⟨e', -, hno'⟩
    · exact .inl ⟨p, p', hok, hok', h.sameImage hapart himage himage'⟩
    · rw [hiff] at hno'
      exact absurd haccepted hno'
  · rcases (meets_loadElf file' ramSize calloc).ok_or_reported with
      ⟨p', -, -, haccepted'⟩ | ⟨e', herror', -⟩
    · rw [hiff] at haccepted'
      exact absurd haccepted' hno
    · exact .inr ⟨e, e', herror, herror'⟩

def noteHeader : List (BitVec 8) := 4#8 :: List.replicate 31 0

def wordHeader : List (BitVec 8) :=
  [1, 0, 0, 0, 116, 0, 0, 0, 0, 0, 0, 0, 0, 0, 0, 0, 4, 0, 0, 0, 4, 0, 0, 0, 5, 0, 0, 0, 4, 0, 0, 0]

def twoHeaders (first second : List (BitVec 8)) : List (BitVec 8) :=
  [0x7F#8, 0x45#8, 0x4C#8, 0x46#8, 1, 1, 1, 0, 0, 0, 0, 0, 0, 0, 0, 0,
    2, 0, 243, 0, 1, 0, 0, 0, 0, 0, 0, 0, 52, 0, 0, 0, 0, 0, 0, 0, 0, 0, 0, 0,
    52, 0, 32, 0, 2, 0, 40, 0, 0, 0, 0, 0] ++ first ++ second ++ [0x73#8, 0, 0, 0]

theorem twoHeaders_permuted :
    HeadersPermuted (twoHeaders noteHeader wordHeader) (twoHeaders wordHeader noteHeader)
      (Equiv.swap ⟨0, by decide⟩ ⟨1, by decide⟩) where
  length := rfl
  outside p hp := by
    have htable : tableBytes (twoHeaders noteHeader wordHeader) = Set.Ico 52 116 := rfl
    have hin : ∀ p < 120, p < 52 ∨ 116 ≤ p →
        fileByte (twoHeaders wordHeader noteHeader) p =
          fileByte (twoHeaders noteHeader wordHeader) p := by decide +kernel
    rw [htable, Set.mem_Ico, not_and_or, not_le, not_lt] at hp
    by_cases h120 : p < 120
    · exact hin p h120 hp
    · rw [fileByte, fileByte, List.getD_eq_default _ _ (not_lt.mp h120),
        List.getD_eq_default _ _ (not_lt.mp h120)]
  entries := by decide +kernel

theorem twoHeaders_apart : TableApart (twoHeaders noteHeader wordHeader) where
  header := Set.Ico_disjoint_Ico.mpr (by decide +kernel)
  sections := Set.Ico_disjoint_Ico.mpr (by decide +kernel)
  attributes := nofun
  segments i s hs := by
    have hlt : i < 2 := segmentAt_lt hs
    have h116 : ∀ i < 2, ∀ s ∈ segmentAt (twoHeaders noteHeader wordHeader) i, 116 ≤ s.offset := by
      decide +kernel
    have htable : tableBytes (twoHeaders noteHeader wordHeader) = Set.Ico 52 116 := rfl
    have h := h116 i hlt s hs
    rw [htable, Set.Ico_disjoint_Ico]
    omega

theorem loadElf_header_order_twoHeaders :
    (∃ p p', loadElf (twoHeaders noteHeader wordHeader) 16 true = .ok p ∧
      loadElf (twoHeaders wordHeader noteHeader) 16 true = .ok p' ∧ SameImage p p') := by
  have hok : (loadElf (twoHeaders noteHeader wordHeader) 16 true).isOk = true := by
    decide +kernel
  rcases loadElf_header_order _ twoHeaders_permuted twoHeaders_apart 16 true with h | ⟨e, -, he, -⟩
  · exact h
  · rw [he] at hok
    exact absurd hok Bool.false_ne_true

end Riscv32
