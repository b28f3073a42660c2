import Riscv32Simulator.Loading.ElfSegments

/-! The image of an ELF file: what the copy loop leaves in RAM, and the loaded program. -/

namespace Riscv32
open Checked Splice

/-! ## Copying -/

structure Copied (file : List (BitVec 8)) (ramSize n : ℕ) (memory : Memory) : Prop where
  isSome : memory.bytes.isSome
  size : memory.size = ramSize
  byte : ∀ i < n, ∀ s ∈ segmentAt file i, ∀ a ∈ s.backed,
    memory.byte a = fileByte file (s.offset + (a - s.address))
  zero : ∀ a, (∀ i < n, ∀ s ∈ segmentAt file i, a ∉ s.backed) → memory.byte a = 0

theorem copied_zeroed (file : List (BitVec 8)) (ramSize : ℕ) :
    Copied file ramSize 0 (Memory.zeroed ramSize) where
  isSome := Memory.isSome_zeroed ramSize
  size := rfl
  byte := nofun
  zero a _ := Memory.byte_zeroed ramSize a

section Turn

variable {file : List (BitVec 8)} {ramSize n : ℕ} {memory : Memory}

theorem Copied.skip (h : Copied file ramSize n memory)
    (hn : ∀ s ∈ segmentAt file n, s.filesz = 0) : Copied file ramSize (n + 1) memory := by
  have hempty : ∀ s ∈ segmentAt file n, ∀ a, a ∉ s.backed := by
    intro s hs a ha
    rw [Segment.backed, hn s hs, Nat.add_zero, Set.Ico_self] at ha
    exact ha
  refine ⟨h.isSome, h.size, fun i hi s hs a ha => ?_, fun a ha => h.zero a fun i hi => ?_⟩
  · rcases Nat.lt_succ_iff_lt_or_eq.mp hi with hlt | rfl
    · exact h.byte i hlt s hs a ha
    · exact absurd ha (hempty s hs a)
  · exact ha i (Nat.lt_succ_of_lt hi)

theorem Copied.add (h : Copied file ramSize n memory) {s : Segment}
    (hs : segmentAt file n = some s) (hfits : s.Fits file ramSize)
    (hdisjoint : ∀ j < n, ∀ t ∈ segmentAt file j, Disjoint s.backed t.backed) :
    Copied file ramSize (n + 1)
      (memory.splice s.address (slice file s.offset s.filesz)) := by
  have hl : (slice file s.offset s.filesz).length = s.filesz := length_slice file hfits.inFile
  have hfile := hfits.filesz
  have hram := hfits.inRam
  have hbyte (a : ℕ) : (memory.splice s.address (slice file s.offset s.filesz)).byte a =
      if a ∈ s.backed then fileByte file (s.offset + (a - s.address)) else memory.byte a := by
    rw [Memory.byte_splice h.isSome (by rw [hl, h.size]; omega), hl]
    refine ite_congr rfl (fun ha => ?_) fun _ => rfl
    rw [getD_slice _ (by have := ha.1; have := ha.2; omega), fileByte]
  refine ⟨by rw [Memory.isSome_splice]; exact h.isSome, h.size, fun i hi t ht a ha => ?_,
    fun a ha => ?_⟩
  · rw [hbyte]
    rcases Nat.lt_succ_iff_lt_or_eq.mp hi with hlt | rfl
    · rw [if_neg fun hc => Set.disjoint_left.mp (hdisjoint i hlt t ht) hc ha]
      exact h.byte i hlt t ht a ha
    · obtain rfl := Option.some.inj (hs.symm.trans ht)
      rw [if_pos ha]
  · rw [hbyte, if_neg (ha n (Nat.lt_succ_self n) s hs)]
    exact h.zero a fun i hi => ha i (Nat.lt_succ_of_lt hi)

theorem meets_copyTurn {entry : BitVec 32} {scan : SegmentScan} {E : ProgramError → Prop}
    (htable : TableInside file) (hscan : Scanned file ramSize entry (headerCount file) scan)
    (hn : n < headerCount file) (h : Copied file ramSize n memory) :
    Meets (Copied file ramSize (n + 1)) E (copyTurn file (fileWord file 28).toNat memory n) := by
  have hinside := headerAt_inside htable hn
  have hph : (fileWord file 28).toNat + n * elfPhSize = headerAt file n := rfl
  rw [copyTurn, hph]
  refine (meets_u32 (by omega)).bind fun type htype => ?_
  rw [htype]
  refine meets_ite (fun hne => ?_) fun hload => ?_
  · have hnone : segmentAt file n = none := if_neg fun hc => hne hc.2
    exact meets_pure (h.skip (by rw [hnone]; nofun))
  have hs : segmentAt file n = some (segmentOf file (headerAt file n)) :=
    if_pos ⟨hn, not_not.mp hload⟩
  have hfits := hscan.fits hn hs
  refine (meets_u32 (by omega)).bind fun filesz hfilesz => ?_
  rw [hfilesz]
  refine meets_ite (fun hzero => ?_) fun _ => ?_
  · refine meets_pure (h.skip fun t ht => ?_)
    obtain rfl := Option.some.inj (hs.symm.trans ht)
    exact congrArg BitVec.toNat hzero
  refine (meets_u32 (by omega)).bind fun address haddress => ?_
  refine (meets_u32 (by omega)).bind fun offset hoffset => ?_
  rw [haddress, hoffset]
  -- segments that are copied are apart, so earlier bytes stay
  have hdisjoint : ∀ j < n, ∀ t ∈ segmentAt file j,
      Disjoint (segmentOf file (headerAt file n)).backed t.backed := fun j hj t ht =>
    (hscan.disjoint n hn j hj _ hs t ht).mono hfits.backed_subset
      (hscan.fits (hj.trans hn) ht).backed_subset
  have hroom := Nat.le_trans (Nat.add_le_add_left hfits.filesz _) hfits.inRam
  refine (meets_memcpyFrom h.isSome hfits.inFile (h.size ▸ hroom)).imp fun m hm => ?_
  rw [hm]
  exact h.add hs hfits hdisjoint

end Turn

/-! ## The loaded program -/

/-- What a loaded ELF file means: its segments lie apart in RAM, every byte of RAM comes from the
one segment that backs it or is zero, and the image spans the segments and nothing more. -/
structure IsElfImage (file : List (BitVec 8)) (ramSize : ℕ) (program : Program) : Prop where
  inside : ∀ i, ∀ s ∈ segmentAt file i, s.address + s.memsz ≤ ramSize
  disjoint : ∀ i j, i ≠ j → ∀ s ∈ segmentAt file i, ∀ t ∈ segmentAt file j, Disjoint s.ram t.ram
  ready : memoryReady program.memory = true
  size : program.memory.size = ramSize
  byte : ∀ i, ∀ s ∈ segmentAt file i, ∀ a ∈ s.backed,
    file[s.offset + (a - s.address)]? = some (program.memory.byte a)
  unique : ∀ i j, ∀ s ∈ segmentAt file i, ∀ t ∈ segmentAt file j, ∀ a ∈ s.backed, a ∈ t.backed →
    i = j
  zero : ∀ a, (∀ i, ∀ s ∈ segmentAt file i, a ∉ s.backed) → program.memory.byte a = 0
  span : ∀ lo hi, lo ≤ program.loadAddress.toNat ∧
      program.loadAddress.toNat + program.imageSize ≤ hi ↔
    ∀ i, ∀ s ∈ segmentAt file i, s.memsz ≠ 0 → lo ≤ s.address ∧ s.address + s.memsz ≤ hi
  entry : program.entry = fileWord file 24
  entryAligned : program.entry.toNat % 4 = 0
  entryHeld : ∃ i, ∃ s ∈ segmentAt file i, s.HoldsEntry program.entry
  format : program.format = .elf
  data : program.elfData = some file
  dataSize : program.elfSize = file.length

theorem Scanned.disjoint_of_ne {file : List (BitVec 8)} {ramSize : ℕ} {entry : BitVec 32}
    {scan : SegmentScan} (h : Scanned file ramSize entry (headerCount file) scan) {i j : ℕ}
    (hij : i ≠ j) {s t : Segment} (hs : s ∈ segmentAt file i) (ht : t ∈ segmentAt file j) :
    Disjoint s.ram t.ram := by
  rcases Nat.lt_or_gt_of_ne hij with hlt | hlt
  · exact (h.disjoint j (segmentAt_lt ht) i hlt t ht s hs).symm
  · exact h.disjoint i (segmentAt_lt hs) j hlt s hs t ht

theorem Scanned.image {file : List (BitVec 8)} {ramSize : ℕ} {scan : SegmentScan}
    (h : Scanned file ramSize (fileWord file 24) (headerCount file) scan)
    (hsize : memorySizeValid ramSize = true) (hexec : scan.executableEntry = true)
    (hspan : scan.lowest < scan.highest) {memory : Memory}
    (hcopied : Copied file ramSize (headerCount file) memory) :
    IsElfImage file ramSize
      { memory := memory
        loadAddress := BitVec.ofNat 32 scan.lowest
        entry := fileWord file 24
        imageSize := scan.highest - scan.lowest
        format := .elf
        elfData := some file
        elfSize := file.length } := by
  have hmax := ((memorySizeValid_iff ramSize).mp hsize).2.1
  have hlow : scan.lowest ≤ ramSize := ((h.lowest _).mp le_rfl).1
  have hload : (BitVec.ofNat 32 scan.lowest).toNat = scan.lowest := by
    rw [BitVec.toNat_ofNat]
    omega
  have hbacked : ∀ i, ∀ s ∈ segmentAt file i, s.backed ⊆ s.ram := fun i s hs =>
    (h.fits (segmentAt_lt hs) hs).backed_subset
  obtain ⟨h4, i₀, hi₀, s₀, hs₀, hholds⟩ := h.entry.mp hexec
  refine ⟨?_, fun i j hij s hs t ht => h.disjoint_of_ne hij hs ht, ?_, hcopied.size, ?_, ?_, ?_, ?_,
    rfl, h4, ⟨i₀, s₀, hs₀, hholds⟩, rfl, rfl, rfl⟩
  · exact fun i s hs => (h.fits (segmentAt_lt hs) hs).inRam
  · rw [memoryReady, hcopied.isSome, hcopied.size, hsize]
    rfl
  · intro i s hs a ha
    have hfits := h.fits (segmentAt_lt hs) hs
    have hlt : s.offset + (a - s.address) < file.length := by
      have h1 := hfits.inFile
      have h2 := ha.1
      have h3 := ha.2
      omega
    rw [hcopied.byte i (segmentAt_lt hs) s hs a ha, fileByte, List.getD_eq_getElem?_getD,
      List.getElem?_eq_getElem hlt]
    rfl
  · intro i j s hs t ht a ha ha'
    by_contra hij
    exact Set.disjoint_left.mp (h.disjoint_of_ne hij hs ht) (hbacked i s hs ha) (hbacked j t ht ha')
  · exact fun a ha => hcopied.zero a fun i _ => ha i
  · intro lo hi
    rw [hload, Nat.add_sub_cancel' hspan.le, h.lowest, h.highest]
    refine ⟨fun hc i s hs hne => ⟨hc.1.2 i (segmentAt_lt hs) s hs hne,
      hc.2 i (segmentAt_lt hs) s hs hne⟩, fun hall => ⟨⟨?_, fun i _ s hs hne => (hall i s hs hne).1⟩,
      fun i _ s hs hne => (hall i s hs hne).2⟩⟩
    -- the segment of the entry is not empty, so neither is the span
    have hfits := h.fits hi₀ hs₀
    have h1 := hfits.filesz
    have h2 := hfits.inRam
    have h3 := hholds.2
    have h5 := (hall i₀ s₀ hs₀ (by omega)).1
    omega

/-! ## Loading -/

theorem Scanned.entry_iff {file : List (BitVec 8)} {ramSize : ℕ} {scan : SegmentScan}
    (h : Scanned file ramSize (fileWord file 24) (headerCount file) scan) :
    (scan.executableEntry = true ∧ scan.lowest < scan.highest) ↔
      (fileWord file 24).toNat % 4 = 0 ∧
        ∃ i, ∃ s ∈ segmentAt file i, s.HoldsEntry (fileWord file 24) := by
  rw [h.entry]
  constructor
  · rintro ⟨⟨h4, i, -, hholds⟩, -⟩
    exact ⟨h4, i, hholds⟩
  · rintro ⟨h4, i, s, hs, hholds⟩
    refine ⟨⟨h4, i, segmentAt_lt hs, s, hs, hholds⟩, ?_⟩
    have h1 := (h.fits (segmentAt_lt hs) hs).filesz
    have h2 := hholds.2
    have hlow := ((h.lowest _).mp le_rfl).2 i (segmentAt_lt hs) s hs (by omega)
    have hhigh := (h.highest _).mp le_rfl i (segmentAt_lt hs) s hs (by omega)
    omega

theorem meets_loadElf (file : List (BitVec 8)) (ramSize : ℕ) (calloc : Bool) :
    Meets (fun program => IsElfImage file ramSize program ∧ ElfAccepted file ramSize ∧ calloc = true)
      (fun _ => ¬ (ElfAccepted file ramSize ∧ calloc = true)) (loadElf file ramSize calloc) := by
  refine (meets_rejectIf fun hsize => ?_).bind fun _ hsize => ?_
  · exact fun hc => absurd hc.1.header.length (not_le.mpr hsize)
  have hfile : 52 ≤ file.length := not_lt.mp hsize
  -- the fields of the ELF header, in the order they are read
  refine (meets_memcmpEq (show 0 + 4 ≤ file.length by omega)).bind fun magic hmagic => ?_
  refine (meets_rejectIf fun hbad => ?_).bind fun _ hgood => ?_
  · rw [Bool.not_eq_true', ← Bool.not_eq_true, hmagic] at hbad
    exact fun hc => hbad hc.1.header.magic
  rw [Bool.not_eq_true', Bool.not_eq_false, hmagic] at hgood
  refine (meets_byteAt (by omega)).bind fun b4 h4 => ?_
  refine (meets_byteAt (by omega)).bind fun b5 h5 => ?_
  refine (meets_byteAt (by omega)).bind fun b6 h6 => ?_
  refine (meets_u16 (by omega)).bind fun h16 h16' => ?_
  refine (meets_u16 (by omega)).bind fun h18 h18' => ?_
  refine (meets_u32 (by omega)).bind fun w20 h20 => ?_
  rw [h4, h5, h6, h16', h18', h20]
  refine (meets_rejectIf fun hbad => ?_).bind fun _ hident => ?_
  · exact fun hc => hbad.elim (· hc.1.header.ident.1) fun h => h.elim (· hc.1.header.ident.2.1)
      fun h => h.elim (· hc.1.header.ident.2.2) fun h => h.elim (· hc.1.header.kind.1)
        fun h => h.elim (· hc.1.header.kind.2.1) (· hc.1.header.kind.2.2)
  simp only [not_or, not_not] at hident
  obtain ⟨i4, i5, i6, k16, k18, k20⟩ := hident
  refine (meets_u32 (by omega)).bind fun flags hflags => ?_
  rw [hflags]
  refine (meets_rejectIf fun hbad => ?_).bind fun _ hflags => ?_
  · exact fun hc => hbad hc.1.header.flags
  refine (meets_u16 (by omega)).bind fun h40 h40' => ?_
  refine (meets_u16 (by omega)).bind fun h42 h42' => ?_
  rw [h40', h42']
  refine (meets_rejectIf fun hbad => ?_).bind fun _ hsizes => ?_
  · exact fun hc => hbad.elim (· hc.1.header.sizes.1) (· hc.1.header.sizes.2)
  rw [not_or, not_not, not_not] at hsizes
  refine (meets_u32 (by omega)).bind fun table htable => ?_
  refine (meets_u32 (by omega)).bind fun entry hentry => ?_
  refine (meets_u16 (by omega)).bind fun count hcount => ?_
  rw [htable, hentry, hcount]
  refine (meets_rejectIf fun hbad => ?_).bind fun _ hrange => ?_
  · rw [Bool.not_eq_true', ← Bool.not_eq_true, range_iff] at hbad
    exact fun hc => hbad.elim hc.1.header.count.1 fun h => h.elim
      (not_lt.mpr hc.1.header.count.2) fun h => h hc.1.header.table
  rw [not_or, not_or, Bool.not_eq_true', Bool.not_eq_false, range_iff] at hrange
  have hinside : TableInside file := hrange.2.2
  have hheader : HeaderAccepted file :=
    ⟨hfile, hgood, ⟨i4, i5, i6⟩, ⟨k16, k18, k20⟩, not_not.mp hflags, hsizes,
      ⟨hrange.1, not_lt.mp hrange.2.1⟩, hinside⟩
  -- sections and all program headers are checked before RAM is allocated
  refine ((meets_validateSections hfile).mono (fun _ => id) ?_).bind fun _ hsections => ?_
  · exact fun _ hno hc => hno hc.1.sections
  refine ((meets_foldlM_range (fun i hi scan hscan => meets_scanTurn hinside hi hscan)
    (scanned_zero file ramSize (fileWord file 24))).mono (fun _ => id) ?_).bind fun scan hscan => ?_
  · exact fun _ hno hc => hno hc.1
  refine (meets_rejectIf fun hbad => ?_).bind fun _ hfound => ?_
  · intro hc
    obtain ⟨hexec, hspan⟩ := hscan.entry_iff.mpr hc.1.entry
    rw [hexec] at hbad
    exact hbad.elim (absurd · (by decide)) (not_le.mpr hspan)
  rw [not_or, Bool.not_eq_true', Bool.not_eq_false, not_le] at hfound
  -- nothing is refused from here on but the allocation
  rw [memoryInit_empty]
  cases hinit : memorySizeValid ramSize && calloc with
  | false =>
    refine meets_reported fun hc => ?_
    rw [hc.1.ramSize, hc.2] at hinit
    exact absurd hinit (by decide)
  | true =>
    rw [Bool.and_eq_true] at hinit
    refine (meets_foldlM_range (fun i hi m hm => meets_copyTurn hinside hscan hi hm)
      (copied_zeroed file ramSize)).bind fun memory hcopied => ?_
    have haccepted : ElfAccepted file ramSize :=
      ⟨hheader, hsections, hscan.entries, fun i j hij s hs t ht => hscan.disjoint_of_ne hij hs ht,
        hscan.entry_iff.mp hfound, hinit.1⟩
    exact meets_pure ⟨hscan.image hinit.1 hfound.1 hfound.2 hcopied, haccepted, hinit.2⟩

/-- Whatever the bytes are, every access stays inside its buffer and every loop ends: the file is
loaded, or an error is reported. -/
theorem loadElf_stays_inside (file : List (BitVec 8)) (ramSize : ℕ) (calloc : Bool) :
    (∃ program, loadElf file ramSize calloc = .ok program) ∨
      ∃ e, loadElf file ramSize calloc = .error (.reported e) :=
  (meets_loadElf file ramSize calloc).ok_or_reported.imp (fun ⟨program, h, _⟩ => ⟨program, h⟩)
    fun ⟨e, h, _⟩ => ⟨e, h⟩

end Riscv32
