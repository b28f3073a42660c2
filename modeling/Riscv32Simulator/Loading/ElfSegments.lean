import Riscv32Simulator.Loading.ElfSections

/-! The segments of an ELF file, which files are accepted, and what the pass over the program
headers establishes. -/

namespace Riscv32
open Checked Splice

structure Segment where
  offset : ℕ
  address : ℕ
  filesz : ℕ
  memsz : ℕ
  executable : Bool
deriving DecidableEq, Repr

def headerCount (file : List (BitVec 8)) : ℕ := (fileHalf file 44).toNat

def headerAt (file : List (BitVec 8)) (i : ℕ) : ℕ := (fileWord file 28).toNat + i * 32

def segmentOf (file : List (BitVec 8)) (p : ℕ) : Segment where
  offset := (fileWord file (p + 4)).toNat
  address := (fileWord file (p + 8)).toNat
  filesz := (fileWord file (p + 16)).toNat
  memsz := (fileWord file (p + 20)).toNat
  executable := fileWord file (p + 24) &&& 1#32 ≠ 0

def segmentAt (file : List (BitVec 8)) (i : ℕ) : Option Segment :=
  if i < headerCount file ∧ fileWord file (headerAt file i) = 1#32 then
    some (segmentOf file (headerAt file i))
  else none

namespace Segment

/-- The bytes that the segment occupies in RAM, and those of them that come from the file. -/
def ram (s : Segment) : Set ℕ := Set.Ico s.address (s.address + s.memsz)
def backed (s : Segment) : Set ℕ := Set.Ico s.address (s.address + s.filesz)

instance (s : Segment) (a : ℕ) : Decidable (a ∈ s.backed) :=
  inferInstanceAs (Decidable (s.address ≤ a ∧ a < s.address + s.filesz))

structure Fits (file : List (BitVec 8)) (ramSize : ℕ) (s : Segment) : Prop where
  filesz : s.filesz ≤ s.memsz
  inFile : s.offset + s.filesz ≤ file.length
  inRam : s.address + s.memsz ≤ ramSize

theorem Fits.backed_subset {file : List (BitVec 8)} {ramSize : ℕ} {s : Segment}
    (h : s.Fits file ramSize) : s.backed ⊆ s.ram :=
  Set.Ico_subset_Ico_right (Nat.add_le_add_left h.filesz _)

theorem disjoint_ram {s t : Segment} :
    Disjoint s.ram t.ram ↔ ¬ (s.memsz ≠ 0 ∧ t.memsz ≠ 0 ∧ s.address < t.address + t.memsz ∧
      t.address < s.address + s.memsz) := by
  rw [ram, ram, Set.Ico_disjoint_Ico]
  omega

/-- The entry and the three bytes after it come from an executable part of the file. -/
def HoldsEntry (s : Segment) (entry : BitVec 32) : Prop :=
  s.executable = true ∧ s.address ≤ entry.toNat ∧ entry.toNat + 4 ≤ s.address + s.filesz

end Segment

/-! ## Accepted files -/

def TableInside (file : List (BitVec 8)) : Prop :=
  headerAt file (headerCount file) ≤ file.length

theorem headerAt_inside {file : List (BitVec 8)} {n : ℕ} (h : TableInside file)
    (hn : n < headerCount file) : headerAt file n + 32 ≤ file.length := by
  have hmul : (n + 1) * 32 ≤ headerCount file * 32 := Nat.mul_le_mul_right 32 hn
  unfold TableInside headerAt at h
  unfold headerAt
  omega

/-- The fields of the ELF header that tell a static RV32 executable, and its header table. -/
structure HeaderAccepted (file : List (BitVec 8)) : Prop where
  length : 52 ≤ file.length
  magic : window file 0 4 = [0x7F#8, 0x45#8, 0x4C#8, 0x46#8]
  ident : fileByte file 4 = 1 ∧ fileByte file 5 = 1 ∧ fileByte file 6 = 1
  kind : fileHalf file 16 = 2#16 ∧ fileHalf file 18 = 243#16 ∧ fileWord file 20 = 1#32
  flags : fileWord file 36 = 0
  sizes : (fileHalf file 40).toNat = 52 ∧ (fileHalf file 42).toNat = 32
  count : fileHalf file 44 ≠ 0 ∧ headerCount file ≤ 1024
  table : TableInside file

structure EntryAccepted (file : List (BitVec 8)) (ramSize p : ℕ) : Prop where
  supported : ¬ (fileWord file p = 2#32 ∨ fileWord file p = 3#32 ∨ fileWord file p = 7#32)
  sizes : fileWord file p = 1#32 → fileWord file (p + 16) ≤ fileWord file (p + 20) ∧
    (fileWord file (p + 4)).toNat + (fileWord file (p + 16)).toNat ≤ file.length
  physical : fileWord file p = 1#32 → fileWord file (p + 12) = fileWord file (p + 8)
  aligned : fileWord file p = 1#32 → ¬ (fileWord file (p + 28) > 1#32 ∧
    (fileWord file (p + 28) &&& (fileWord file (p + 28) - 1#32) ≠ 0 ∨
      fileWord file (p + 8) % fileWord file (p + 28) ≠
        fileWord file (p + 4) % fileWord file (p + 28)))
  inRam : fileWord file p = 1#32 →
    (fileWord file (p + 8)).toNat + (fileWord file (p + 20)).toNat ≤ ramSize

theorem entryAccepted_of_other {file : List (BitVec 8)} {ramSize p : ℕ}
    (h : ¬ (fileWord file p = 2#32 ∨ fileWord file p = 3#32 ∨ fileWord file p = 7#32))
    (hne : fileWord file p ≠ 1#32) : EntryAccepted file ramSize p where
  supported := h
  sizes hc := absurd hc hne
  physical hc := absurd hc hne
  aligned hc := absurd hc hne
  inRam hc := absurd hc hne

theorem EntryAccepted.fits {file : List (BitVec 8)} {ramSize i : ℕ}
    (h : EntryAccepted file ramSize (headerAt file i)) {s : Segment} (hs : s ∈ segmentAt file i) :
    s.Fits file ramSize := by
  obtain ⟨⟨-, hload⟩, hs⟩ := Option.ite_none_right_eq_some.mp hs
  obtain rfl := Option.some.inj hs
  exact ⟨(h.sizes hload).1, (h.sizes hload).2, h.inRam hload⟩

/-- What the loader asks of a file. The order of the program headers does not matter. -/
structure ElfAccepted (file : List (BitVec 8)) (ramSize : ℕ) : Prop where
  header : HeaderAccepted file
  sections : SectionsAccepted file
  entries : ∀ i < headerCount file, EntryAccepted file ramSize (headerAt file i)
  disjoint : ∀ i j, i ≠ j → ∀ s ∈ segmentAt file i, ∀ t ∈ segmentAt file j, Disjoint s.ram t.ram
  entry : (fileWord file 24).toNat % 4 = 0 ∧
    ∃ i, ∃ s ∈ segmentAt file i, s.HoldsEntry (fileWord file 24)
  ramSize : memorySizeValid ramSize = true

theorem segmentAt_lt {file : List (BitVec 8)} {i : ℕ} {s : Segment}
    (h : s ∈ segmentAt file i) : i < headerCount file :=
  (Option.ite_none_right_eq_some.mp h).1.1

/-! ## The pass over the program headers -/

structure Scanned (file : List (BitVec 8)) (ramSize : ℕ) (entry : BitVec 32) (n : ℕ)
    (scan : SegmentScan) : Prop where
  entries : ∀ i < n, EntryAccepted file ramSize (headerAt file i)
  disjoint : ∀ i < n, ∀ j < i, ∀ s ∈ segmentAt file i, ∀ t ∈ segmentAt file j,
    Disjoint s.ram t.ram
  lowest : ∀ lo, lo ≤ scan.lowest ↔
    lo ≤ ramSize ∧ ∀ i < n, ∀ s ∈ segmentAt file i, s.memsz ≠ 0 → lo ≤ s.address
  highest : ∀ hi, scan.highest ≤ hi ↔
    ∀ i < n, ∀ s ∈ segmentAt file i, s.memsz ≠ 0 → s.address + s.memsz ≤ hi
  entry : scan.executableEntry = true ↔
    entry.toNat % 4 = 0 ∧ ∃ i < n, ∃ s ∈ segmentAt file i, s.HoldsEntry entry

theorem Scanned.fits {file : List (BitVec 8)} {ramSize : ℕ} {entry : BitVec 32} {n : ℕ}
    {scan : SegmentScan} (h : Scanned file ramSize entry n scan) {i : ℕ} (hi : i < n) {s : Segment}
    (hs : s ∈ segmentAt file i) : s.Fits file ramSize := (h.entries i hi).fits hs

theorem scanned_zero (file : List (BitVec 8)) (ramSize : ℕ) (entry : BitVec 32) :
    Scanned file ramSize entry 0 { lowest := ramSize } where
  entries := nofun
  disjoint := nofun
  lowest _ := ⟨fun h => ⟨h, nofun⟩, fun h => h.1⟩
  highest _ := ⟨fun _ => nofun, fun _ => Nat.zero_le _⟩
  entry := ⟨nofun, fun ⟨_, _, hi, _⟩ => absurd hi (Nat.not_lt_zero _)⟩

section Step

variable {file : List (BitVec 8)} {ramSize : ℕ} {entry : BitVec 32} {n : ℕ} {scan : SegmentScan}

theorem Scanned.skip (h : Scanned file ramSize entry n scan)
    (hentry : EntryAccepted file ramSize (headerAt file n))
    (hn : ∀ s ∈ segmentAt file n, s.memsz = 0) :
    Scanned file ramSize entry (n + 1) scan := by
  have hempty : ∀ s ∈ segmentAt file n, ∀ t : Segment, Disjoint s.ram t.ram := fun s hs t =>
    Segment.disjoint_ram.mpr fun hc => hc.1 (hn s hs)
  refine ⟨?_, ?_, fun lo => ?_, fun hi => ?_, ?_⟩
  · intro i hi
    rcases Nat.lt_succ_iff_lt_or_eq.mp hi with hlt | rfl
    · exact h.entries i hlt
    · exact hentry
  · intro i hi j hj s hs t ht
    rcases Nat.lt_succ_iff_lt_or_eq.mp hi with hlt | rfl
    · exact h.disjoint i hlt j hj s hs t ht
    · exact hempty s hs t
  · rw [h.lowest, Nat.forall_lt_succ_right]
    exact ⟨fun hl => ⟨hl.1, hl.2, fun s hs hne => absurd (hn s hs) hne⟩,
      fun hl => ⟨hl.1, hl.2.1⟩⟩
  · rw [h.highest, Nat.forall_lt_succ_right]
    exact ⟨fun hh => ⟨hh, fun s hs hne => absurd (hn s hs) hne⟩, fun hh => hh.1⟩
  · rw [h.entry]
    refine and_congr_right fun _ => ⟨fun ⟨i, hi, hholds⟩ => ⟨i, Nat.lt_succ_of_lt hi, hholds⟩, ?_⟩
    rintro ⟨i, hi, s, hs, hholds⟩
    rcases Nat.lt_succ_iff_lt_or_eq.mp hi with hlt | rfl
    · exact ⟨i, hlt, s, hs, hholds⟩
    · have h1 := (hentry.fits hs).filesz
      have h2 := hn s hs
      have h3 := hholds.2
      omega

theorem Scanned.add (h : Scanned file ramSize entry n scan) {s : Segment}
    (hs : segmentAt file n = some s) (haccepted : EntryAccepted file ramSize (headerAt file n))
    (hne : s.memsz ≠ 0) (hdisjoint : ∀ j < n, ∀ t ∈ segmentAt file j, Disjoint s.ram t.ram)
    {executableEntry : Bool} (hentry : executableEntry = true ↔ scan.executableEntry = true ∨
      entry.toNat % 4 = 0 ∧ s.HoldsEntry entry) :
    Scanned file ramSize entry (n + 1)
      { lowest := if s.address < scan.lowest then s.address else scan.lowest
        highest := if s.address + s.memsz > scan.highest then s.address + s.memsz else scan.highest
        executableEntry := executableEntry } := by
  have hmem : ∀ t ∈ segmentAt file n, t = s := fun t ht => Option.some.inj (ht.symm.trans hs)
  refine ⟨?_, ?_, fun lo => ?_, fun hi => ?_, ?_⟩
  · intro i hi
    rcases Nat.lt_succ_iff_lt_or_eq.mp hi with hlt | rfl
    · exact h.entries i hlt
    · exact haccepted
  · intro i hi j hj t ht u hu
    rcases Nat.lt_succ_iff_lt_or_eq.mp hi with hlt | rfl
    · exact h.disjoint i hlt j hj t ht u hu
    · rw [hmem t ht]
      exact hdisjoint j hj u hu
  · rw [Nat.forall_lt_succ_right, ← and_assoc, ← h.lowest]
    have hlast : (∀ t ∈ segmentAt file n, t.memsz ≠ 0 → lo ≤ t.address) ↔ lo ≤ s.address :=
      ⟨fun ha => ha s hs hne, fun ha t ht _ => by rwa [hmem t ht]⟩
    rw [hlast]
    dsimp only
    split_ifs <;> omega
  · rw [Nat.forall_lt_succ_right, ← h.highest]
    have hlast : (∀ t ∈ segmentAt file n, t.memsz ≠ 0 → t.address + t.memsz ≤ hi) ↔
        s.address + s.memsz ≤ hi :=
      ⟨fun ha => ha s hs hne, fun ha t ht _ => by rwa [hmem t ht]⟩
    rw [hlast]
    dsimp only
    split_ifs <;> omega
  · dsimp only
    rw [hentry, h.entry, ← and_or_left]
    refine and_congr_right fun _ => ⟨?_, ?_⟩
    · rintro (⟨i, hi, hholds⟩ | hholds)
      · exact ⟨i, Nat.lt_succ_of_lt hi, hholds⟩
      · exact ⟨n, Nat.lt_succ_self n, s, hs, hholds⟩
    · rintro ⟨i, hi, t, ht, hholds⟩
      rcases Nat.lt_succ_iff_lt_or_eq.mp hi with hlt | rfl
      · exact .inl ⟨i, hlt, t, ht, hholds⟩
      · exact .inr (by rwa [hmem t ht] at hholds)

end Step

/-! ## One header -/

section Turn

variable {file : List (BitVec 8)} {ramSize : ℕ} {entry : BitVec 32} {n : ℕ} {scan : SegmentScan}

theorem meets_overlapTurn (h : TableInside file) {j : ℕ} (hj : j < headerCount file)
    {address memsz : BitVec 32} {s : Segment} (haddress : s.address = address.toNat)
    (hmemsz : s.memsz = memsz.toNat) (hne : s.memsz ≠ 0) :
    Meets (fun _ => ∀ t ∈ segmentAt file j, Disjoint s.ram t.ram)
      (fun _ => ∃ t ∈ segmentAt file j, ¬ Disjoint s.ram t.ram)
      (overlapTurn file (fileWord file 28).toNat address memsz j) := by
  have hinside := headerAt_inside h hj
  have hprior : (fileWord file 28).toNat + j * elfPhSize = headerAt file j := rfl
  rw [overlapTurn, hprior]
  refine (meets_u32 (by omega)).bind fun a ha => ?_
  refine (meets_u32 (by omega)).bind fun m hm => ?_
  refine (meets_u32 (by omega)).bind fun type htype => ?_
  simp only [Segment.disjoint_ram, haddress, hmemsz]
  rw [hmemsz] at hne
  rw [ha, hm, htype]
  refine (meets_rejectIf fun hc => ?_).imp fun _ hno t ht hc => ?_
  · exact ⟨_, if_pos ⟨hj, hc.1⟩,
      not_not.mpr ⟨hne, fun h0 => hc.2.1 (BitVec.eq_of_toNat_eq h0), hc.2.2⟩⟩
  · obtain ⟨hcond, ht⟩ := Option.ite_none_right_eq_some.mp ht
    obtain rfl := Option.some.inj ht
    exact hno ⟨hcond.2, fun h0 => hc.2.1 (congrArg BitVec.toNat h0), hc.2.2⟩

theorem entry_inside_iff {address filesz : BitVec 32} :
    (filesz ≥ 4#32 ∧ entry ≥ address ∧ entry - address ≤ filesz - 4#32) ↔
      address.toNat ≤ entry.toNat ∧ entry.toNat + 4 ≤ address.toNat + filesz.toNat := by
  have h4 : (4#32).toNat = 4 := rfl
  constructor
  · rintro ⟨hsize, hge, hle⟩
    have h1 : address.toNat ≤ entry.toNat := hge
    have h2 : 4 ≤ filesz.toNat := hsize
    have h3 : (entry - address).toNat ≤ (filesz - 4#32).toNat := hle
    rw [BitVec.toNat_sub_of_le hge, BitVec.toNat_sub_of_le hsize] at h3
    omega
  · rintro ⟨h1, h2⟩
    have hge : entry ≥ address := h1
    have hsize : filesz ≥ 4#32 := show 4 ≤ filesz.toNat by omega
    refine ⟨hsize, hge, ?_⟩
    rw [BitVec.le_def, BitVec.toNat_sub_of_le hge, BitVec.toNat_sub_of_le hsize]
    omega

/-- One turn of the pass keeps what is known of the headers so far and adds the next one; a header
that it refuses makes the file one that is not accepted. -/
theorem meets_scanTurn (htable : TableInside file) (hn : n < headerCount file)
    (h : Scanned file ramSize entry n scan) :
    Meets (Scanned file ramSize entry (n + 1)) (fun _ => ¬ ElfAccepted file ramSize)
      (scanTurn file ramSize (fileWord file 28).toNat entry scan n) := by
  have hinside := headerAt_inside htable hn
  have hph : (fileWord file 28).toNat + n * elfPhSize = headerAt file n := rfl
  have hreject (hno : ¬ EntryAccepted file ramSize (headerAt file n)) :
      ¬ ElfAccepted file ramSize := fun hc => hno (hc.entries n hn)
  rw [scanTurn, hph]
  refine (meets_u32 (by omega)).bind fun type htype => ?_
  rw [htype]
  refine (meets_rejectIf fun hbad => ?_).bind fun _ htype => ?_
  · exact hreject fun hc => hc.supported hbad
  -- a header that is not `PT_LOAD` is skipped
  refine meets_ite (fun hne => ?_) fun hload => ?_
  · have hnone : segmentAt file n = none := if_neg fun hc => hne hc.2
    exact meets_pure (h.skip (entryAccepted_of_other htype hne) (by rw [hnone]; nofun))
  rw [not_not] at hload
  refine (meets_u32 (by omega)).bind fun offset hoffset => ?_
  refine (meets_u32 (by omega)).bind fun address haddress => ?_
  refine (meets_u32 (by omega)).bind fun physical hphysical => ?_
  refine (meets_u32 (by omega)).bind fun filesz hfilesz => ?_
  refine (meets_u32 (by omega)).bind fun memsz hmemsz => ?_
  refine (meets_u32 (by omega)).bind fun flags hflags => ?_
  refine (meets_u32 (by omega)).bind fun align halign => ?_
  rw [hoffset, haddress, hphysical, hfilesz, hmemsz, hflags, halign]
  refine (meets_rejectIf fun hbad => ?_).bind fun _ hfile => ?_
  · rw [Bool.not_eq_true', ← Bool.not_eq_true, range_iff] at hbad
    exact hreject fun hc => hbad.elim (BitVec.not_lt.mpr (hc.sizes hload).1)
      fun h => h (hc.sizes hload).2
  rw [not_or, Bool.not_eq_true', Bool.not_eq_false, range_iff] at hfile
  refine (meets_rejectIf fun hbad => ?_).bind fun _ hphys => ?_
  · exact hreject fun hc => hbad (hc.physical hload)
  refine (meets_rejectIf fun hbad => ?_).bind fun _ haligned => ?_
  · exact hreject fun hc => hc.aligned hload hbad
  refine (meets_rejectIf fun hbad => ?_).bind fun _ hram => ?_
  · rw [Bool.not_eq_true', ← Bool.not_eq_true, range_iff] at hbad
    exact hreject fun hc => hbad (hc.inRam hload)
  rw [Bool.not_eq_true', Bool.not_eq_false, range_iff] at hram
  have haccepted : EntryAccepted file ramSize (headerAt file n) :=
    ⟨htype, fun _ => ⟨BitVec.not_lt.mp hfile.1, hfile.2⟩, fun _ => not_not.mp hphys,
      fun _ => haligned, fun _ => hram⟩
  have hs : segmentAt file n = some (segmentOf file (headerAt file n)) := if_pos ⟨hn, hload⟩
  -- an empty segment is accepted and leaves the span as it is
  refine meets_ite (fun hzero => ?_) fun hne => ?_
  · refine meets_pure (h.skip haccepted fun t ht => ?_)
    obtain rfl := Option.some.inj (hs.symm.trans ht)
    exact congrArg BitVec.toNat hzero
  have hnz : (segmentOf file (headerAt file n)).memsz ≠ 0 := fun hc =>
    hne (BitVec.eq_of_toNat_eq hc)
  -- the inner loop compares the segment with every earlier one
  refine (meets_foldlM_range (I := fun j _ => ∀ k < j, ∀ t ∈ segmentAt file k,
    Disjoint (segmentOf file (headerAt file n)).ram t.ram) (fun j hj _ hprior => ?_) nofun).bind
      fun _ hdisjoint => meets_pure (h.add hs haccepted hnz hdisjoint ?_)
  · refine (meets_overlapTurn htable (hj.trans hn) rfl rfl hnz).mono (fun _ hno k hk t ht => ?_) ?_
    · rcases Nat.lt_succ_iff_lt_or_eq.mp hk with hlt | rfl
      · exact hprior k hlt t ht
      · exact hno t ht
    · rintro _ ⟨t, ht, hover⟩ hc
      exact hover (hc.disjoint n j hj.ne' _ hs t ht)
  · rw [Bool.or_eq_true, decide_eq_true_eq, Segment.HoldsEntry, segmentOf, ← entry_inside_iff,
      decide_eq_true_eq]
    exact or_congr_right ⟨fun ⟨hx, h1, h2, h3, h4⟩ => ⟨h4, hx, h1, h2, h3⟩,
      fun ⟨h4, hx, h1, h2, h3⟩ => ⟨hx, h1, h2, h3, h4⟩⟩

end Turn

end Riscv32
