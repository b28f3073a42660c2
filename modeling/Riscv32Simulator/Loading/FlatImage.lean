import Riscv32Simulator.Loading.Runnable

/-! An ELF file and the raw binary of its flattened image: the same RAM, and the same runs. -/

namespace Riscv32
open Checked Splice

/-! ## Flattening -/

def backedEndAt (file : List (BitVec 8)) (i : ℕ) : ℕ :=
  (segmentAt file i).elim 0 fun s => if s.filesz = 0 then 0 else s.address + s.filesz

def backedEnd (file : List (BitVec 8)) : ℕ :=
  ((List.range (headerCount file)).map (backedEndAt file)).foldr max 0

def imageByte (file : List (BitVec 8)) (a : ℕ) : BitVec 8 :=
  ((List.range (headerCount file)).findSome? fun i =>
    (segmentAt file i).filter fun s => a ∈ s.backed).elim 0
      fun s => fileByte file (s.offset + (a - s.address))

/-- The image from an address up to its last file-backed byte, with zeros in the gaps. -/
def flatBytes (file : List (BitVec 8)) (loadAddress : ℕ) : List (BitVec 8) :=
  (List.range (backedEnd file - loadAddress)).map fun k => imageByte file (loadAddress + k)

theorem foldr_max_le_iff (xs : List ℕ) (hi : ℕ) : xs.foldr max 0 ≤ hi ↔ ∀ x ∈ xs, x ≤ hi := by
  induction xs with
  | nil => simp
  | cons x xs ih => rw [List.foldr_cons, max_le_iff, ih, List.forall_mem_cons]

theorem backedEnd_le_iff (file : List (BitVec 8)) (hi : ℕ) : backedEnd file ≤ hi ↔
    ∀ i, ∀ s ∈ segmentAt file i, s.filesz ≠ 0 → s.address + s.filesz ≤ hi := by
  rw [backedEnd, foldr_max_le_iff]
  simp only [List.mem_map, List.mem_range, forall_exists_index, and_imp,
    forall_apply_eq_imp_iff₂]
  constructor
  · intro hall i s hs hne
    have hh := hall i (segmentAt_lt hs)
    rw [backedEndAt, Option.mem_def.mp hs, Option.elim_some, if_neg hne] at hh
    exact hh
  · intro hall i _
    unfold backedEndAt
    cases hs : segmentAt file i with
    | none => exact Nat.zero_le hi
    | some s =>
      rw [Option.elim_some]
      split_ifs with hzero
      · exact Nat.zero_le hi
      · exact hall i s hs hzero

theorem le_backedEnd {file : List (BitVec 8)} {i : ℕ} {s : Segment} (hs : s ∈ segmentAt file i)
    {a : ℕ} (ha : a ∈ s.backed) : a < backedEnd file := by
  have hlo := ha.1
  have hhi := ha.2
  have hle := (backedEnd_le_iff file _).mp le_rfl i s hs (by omega)
  omega

theorem IsElfImage.byte_eq {file : List (BitVec 8)} {ramSize : ℕ} {p : Program}
    (h : IsElfImage file ramSize p) (a : ℕ) : p.memory.byte a = imageByte file a := by
  unfold imageByte
  cases hfind : (List.range (headerCount file)).findSome? fun i =>
      (segmentAt file i).filter fun s => a ∈ s.backed with
  | none =>
    rw [List.findSome?_eq_none_iff] at hfind
    refine h.zero a fun i s hs ha => ?_
    have hnone := hfind i (List.mem_range.mpr (segmentAt_lt hs))
    rw [Option.mem_def.mp hs, Option.filter_some, if_pos (decide_eq_true ha)] at hnone
    nomatch hnone
  | some s =>
    obtain ⟨i, -, hi⟩ := List.exists_of_findSome?_eq_some hfind
    obtain ⟨hs, ha⟩ := Option.filter_eq_some_iff.mp hi
    have hbyte := h.byte i s hs a (of_decide_eq_true ha)
    rw [Option.elim_some, fileByte, List.getD_eq_getElem?_getD, hbyte]
    rfl

theorem length_flatBytes (file : List (BitVec 8)) (loadAddress : ℕ) :
    (flatBytes file loadAddress).length = backedEnd file - loadAddress := by
  rw [flatBytes, List.length_map, List.length_range]

theorem getD_flatBytes {file : List (BitVec 8)} {loadAddress k : ℕ}
    (h : k < backedEnd file - loadAddress) :
    (flatBytes file loadAddress).getD k 0 = imageByte file (loadAddress + k) := by
  rw [flatBytes, List.getD_eq_getElem?_getD, List.getElem?_map, List.getElem?_range h]
  rfl

section Flat

variable {file : List (BitVec 8)} {ramSize : ℕ} {p : Program}

theorem IsElfImage.load_le (h : IsElfImage file ramSize p) (ha : ElfAccepted file ramSize) {i : ℕ}
    {s : Segment} (hs : s ∈ segmentAt file i) (hne : s.filesz ≠ 0) :
    p.loadAddress.toNat ≤ s.address := by
  have hfits := (ha.entries i (segmentAt_lt hs)).fits hs
  have hfilesz := hfits.filesz
  exact ((h.span _ _).mp ⟨le_rfl, le_rfl⟩ i s hs (by omega)).1

theorem IsElfImage.flat_accepted (h : IsElfImage file ramSize p) (ha : ElfAccepted file ramSize)
    (h4 : p.loadAddress.toNat % 4 = 0) :
    BinaryAccepted ramSize p.loadAddress p.entry (flatBytes file p.loadAddress.toNat) := by
  have hr := h.runnable ha
  have habove := hr.above
  obtain ⟨i, s, hs, -, hlo, hhi⟩ := h.entryHeld
  have hend := (backedEnd_le_iff file _).mp le_rfl i s hs (by omega)
  have hram : backedEnd file ≤ ramSize := (backedEnd_le_iff file _).mpr fun j t ht _ => by
    have hfits := (ha.entries j (segmentAt_lt ht)).fits ht
    have h1 := hfits.filesz
    have h2 := hfits.inRam
    omega
  refine ⟨programAddressValid_ok_iff.mpr ⟨ha.ramSize, h4, by omega, hr.aligned, habove, by omega⟩,
    ?_, ?_⟩
  · rw [length_flatBytes]
    omega
  · rw [length_flatBytes]
    omega

theorem IsElfImage.flat_memory (h : IsElfImage file ramSize p) (ha : ElfAccepted file ramSize)
    (h4 : p.loadAddress.toNat % 4 = 0) :
    (binaryProgram ramSize p.loadAddress p.entry (flatBytes file p.loadAddress.toNat)).memory =
      p.memory := by
  have hfits := (h.flat_accepted ha h4).fits
  have hlen := length_flatBytes file p.loadAddress.toNat
  have hsome : ((Memory.zeroed ramSize).splice p.loadAddress.toNat
      (flatBytes file p.loadAddress.toNat)).bytes.isSome := by
    rw [Memory.isSome_splice]
    exact Memory.isSome_zeroed ramSize
  refine Memory.ext_byte hsome (memoryReady_isSome h.ready) h.size.symm fun a _ => ?_
  rw [binaryProgram, Memory.byte_splice (Memory.isSome_zeroed ramSize) hfits, Memory.byte_zeroed]
  split_ifs with hin
  · rw [getD_flatBytes (by omega), h.byte_eq, Nat.add_sub_cancel' hin.1]
  · refine (h.zero a fun i s hs hback => hin ⟨?_, ?_⟩).symm
    · have hlo := hback.1
      have hhi := hback.2
      have hload := h.load_le ha hs (by omega)
      omega
    · have hlt := le_backedEnd hs hback
      omega

end Flat

/-! ## Runs -/

def withInitial (m : Machine) (p : Program) : Machine := { m with initial := p }

theorem machineStep_withInitial (m : Machine) (p : Program) :
    machineStep (withInitial m p) = ((machineStep m).1, withInitial (machineStep m).2 p) := by
  have hattempt : machineAttempt (withInitial m p) = machineAttempt m := rfl
  by_cases ha : active m
  · have ha' : active (withInitial m p) := ha
    rw [machineStep_eq ha, machineStep_eq ha', hattempt]
    split_ifs <;> rfl
  · have ha' : ¬ active (withInitial m p) := ha
    rw [machineStep_inactive ha, machineStep_inactive ha']
    rfl

section Run

variable {σ : Type} (shouldStop : Option (σ → Bool × σ)) (trace : Option (CpuStepRecord → σ → σ))

theorem machineRunLoop_withInitial (n : ℕ) (total : MachineRun) (m : Machine) (p : Program)
    (c : σ) : machineRunLoop shouldStop trace n total (withInitial m p) c =
      ((machineRunLoop shouldStop trace n total m c).1,
        withInitial (machineRunLoop shouldStop trace n total m c).2.1 p,
        (machineRunLoop shouldStop trace n total m c).2.2) := by
  induction n generalizing total m c with
  | zero => rfl
  | succ n ih =>
    rw [machineRunLoop_succ, machineRunLoop_succ, machineStep_withInitial]
    split_ifs
    · rfl
    · rfl
    · exact ih ..

/-- What a run reports and does to CPU and RAM does not depend on the image to reset to. -/
theorem machineRun_withInitial (m : Machine) (p : Program) (limit : ℕ) (c : σ) :
    machineRun (withInitial m p) limit shouldStop trace c =
      ((machineRun m limit shouldStop trace c).1,
        withInitial (machineRun m limit shouldStop trace c).2.1 p,
        (machineRun m limit shouldStop trace c).2.2) := by
  by_cases ha : active m ∧ limit ≠ 0
  · have ha' : active (withInitial m p) := ha.1
    rw [machineRun_active _ _ ha.1 ha.2, machineRun_active _ _ ha' ha.2,
      machineRunLoop_withInitial]
  · have ha' : ¬ (active (withInitial m p) ∧ limit ≠ 0) := ha
    rw [machineRun_inactive _ _ ha, machineRun_inactive _ _ ha']
    rfl

end Run

/-- The machines start alike, and no run tells them apart: not by what it reports, not by what it
hands to its callbacks, and not by the CPU and the RAM it leaves. -/
structure RunAlike (a b : Machine) : Prop where
  cpu : a.cpu = b.cpu
  memory : a.memory = b.memory
  run : ∀ {σ : Type} (limit : ℕ) (shouldStop : Option (σ → Bool × σ))
    (trace : Option (CpuStepRecord → σ → σ)) (context : σ),
    (machineRun a limit shouldStop trace context).1 =
        (machineRun b limit shouldStop trace context).1 ∧
      (machineRun a limit shouldStop trace context).2.2 =
        (machineRun b limit shouldStop trace context).2.2 ∧
      (machineRun b limit shouldStop trace context).2.1 =
        withInitial (machineRun a limit shouldStop trace context).2.1 b.initial

theorem runAlike_withInitial (m : Machine) (p : Program) : RunAlike m (withInitial m p) where
  cpu := rfl
  memory := rfl
  run limit shouldStop trace context := by
    rw [machineRun_withInitial]
    exact ⟨rfl, rfl, rfl⟩

/-- An accepted ELF file whose image begins at a word, and the raw binary of the flattened image,
give the same RAM and entry, and machines that run alike. -/
theorem elf_and_flat_agree {input : Input} {ramSize : ℕ} {malloc : ℕ → Bool} {calloc : Bool}
    {p : Program} (h : programReadElf input ramSize malloc calloc = .ok p)
    (h4 : p.loadAddress.toNat % 4 = 0) :
    ∃ q, programReadBinary { rest := flatBytes input.rest p.loadAddress.toNat } ramSize
        p.loadAddress p.entry (fun _ => true) true = .ok q ∧
      q.memory = p.memory ∧ q.entry = p.entry ∧
      ∀ m m' : Machine, (machineLoad m p true true).1 = true ∧ (machineLoad m' q true true).1 = true ∧
        RunAlike (machineLoad m p true true).2 (machineLoad m' q true true).2 := by
  obtain ⟨-, himage, haccepted⟩ := (meets_programReadElf ..).of_ok h
  have hflat := himage.flat_accepted haccepted h4
  have hmemory := himage.flat_memory haccepted h4
  obtain ⟨-, hq⟩ | ⟨hno, -⟩ := programReadBinary_eq (flatBytes input.rest p.loadAddress.toNat)
    ramSize p.loadAddress p.entry
  · refine ⟨_, hq, hmemory, rfl, fun m m' => ?_⟩
    rw [machineLoad_eq, machineLoad_eq, if_pos ⟨(himage.runnable haccepted).accepted, rfl, rfl⟩,
      if_pos ⟨hflat.runnable.accepted, rfl, rfl⟩]
    refine ⟨rfl, rfl, ?_⟩
    -- the machines differ in what a reset restores only
    have halike := runAlike_withInitial (loadedMachine p) (loadedMachine (binaryProgram ramSize
      p.loadAddress p.entry (flatBytes input.rest p.loadAddress.toNat))).initial
    have hsame : withInitial (loadedMachine p) (loadedMachine (binaryProgram ramSize
        p.loadAddress p.entry (flatBytes input.rest p.loadAddress.toNat))).initial =
        loadedMachine (binaryProgram ramSize p.loadAddress p.entry
          (flatBytes input.rest p.loadAddress.toNat)) := by
      rw [withInitial, loadedMachine, loadedMachine, hmemory]
      rfl
    rwa [hsame] at halike
  · exact absurd hflat hno

theorem elf_and_flat_agree_twoSegmentElf :
    ∃ p q, programReadElf { rest := twoSegmentElf } 32 (fun _ => true) true = .ok p ∧
      p.loadAddress = 4 ∧ p.imageSize = 20 ∧
      programReadBinary { rest := flatBytes twoSegmentElf p.loadAddress.toNat } 32 p.loadAddress
        p.entry (fun _ => true) true = .ok q ∧ q.memory = p.memory := by
  have hload : (programReadElf { rest := twoSegmentElf } 32 (fun _ => true) true).map
      (fun p => (p.loadAddress, p.imageSize)) = .ok (4, 20) := by decide +kernel
  cases h : programReadElf { rest := twoSegmentElf } 32 (fun _ => true) true with
  | error e =>
    rw [h] at hload
    cases hload
  | ok p =>
    rw [h] at hload
    obtain ⟨haddress, hsize⟩ := Prod.mk.inj (Except.ok.inj hload)
    have hal : p.loadAddress.toNat % 4 = 0 := by
      rw [haddress]
      decide
    obtain ⟨q, hq, hmemory, -⟩ := elf_and_flat_agree h hal
    exact ⟨p, q, rfl, haddress, hsize, hq, hmemory⟩

end Riscv32
