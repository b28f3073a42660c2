import Riscv32Simulator.Control.Environment
import Riscv32Simulator.Control.Uninterrupted
import Riscv32Simulator.Guest.Blocks
import Riscv32Simulator.Guest.Startup
import Riscv32Simulator.Isa.Pseudo
import Riscv32Simulator.Source.Report

/-! `start.S`: from `_start` to `main`, and from what `main` returns to the end of the run. -/

namespace Riscv32
open Iterated LabelledRun
open Rv32i (Instr State Word traced Holds accessible la call)

structure StartSymbols where
  stackTop : Word
  globalPointer : Word
  bssStart : Word
  bssEnd : Word
  main : Word

/-- From `.Lmain` behind the call: `addi a7, zero, 93` and `ecall`. -/
def exitService : List Instr := [.opImm .addi 17 0 93, .ecall]

def start (l : Word) (y : StartSymbols) : List Instr :=
  la 2 l y.stackTop ++ (la 3 (l + 8) y.globalPointer ++ (la 5 (l + 16) y.bssStart ++
    (la 6 (l + 24) y.bssEnd ++ (lclear ++ (call (l + 48) y.main ++
      (exitService ++ [.jal 0 0]))))))

/-- `_start` lies in RAM, apart from the section that it clears. -/
structure Booting (size : ℕ) (s : State) (y : StartSymbols) : Prop where
  code : Holds s.mem s.pc (start s.pc y)
  pcAligned : s.pc.toNat % 4 = 0
  pcInside : s.pc.toNat + 68 ≤ size
  startAligned : y.bssStart.toNat % 4 = 0
  endAligned : y.bssEnd.toNat % 4 = 0
  ordered : y.bssStart ≤ y.bssEnd
  endInside : y.bssEnd.toNat ≤ size
  mainAligned : y.main.toNat % 4 = 0
  apart : ∀ a : Word, y.bssStart ≤ a → a < y.bssEnd →
    ¬ (s.pc.toNat ≤ a.toNat ∧ a.toNat < s.pc.toNat + 68)

def withPointers (reg : Rv32i.Reg → Word) (y : StartSymbols) (t0 : Word) : Rv32i.Reg → Word :=
  Function.update (Function.update (Function.update (Function.update reg 2 y.stackTop) 3
    y.globalPointer) 5 t0) 6 y.bssEnd

def startSteps (y : StartSymbols) : ℕ := y.bssEnd.toNat - y.bssStart.toNat + 11

/-- The hart at the first instruction of `main`. -/
def entered (s : State) (y : StartSymbols) : State where
  reg := Function.update (withPointers s.reg y y.bssEnd) 1 (s.pc + 56)
  pc := y.main
  retired := s.retired + BitVec.ofNat 64 (startSteps y)
  mem := cleared s.mem y.bssStart y.bssEnd

def addressed (s : State) (k : ℕ) (reg : Rv32i.Reg → Word) : State :=
  { s with
    reg := reg
    pc := s.pc + BitVec.ofNat 32 (8 * k)
    retired := s.retired + BitVec.ofNat 64 (2 * k) }

theorem memset_eq_cleared (mem : Word → BitVec 8) {a b : Word} (h : a ≤ b) :
    memset mem a 0 (b - a) = .ok (a, cleared mem a b) := by
  rw [memset_eq]
  have hspace : AddressSpace.filled mem a 0 (b - a) = cleared mem a b := by
    funext c
    unfold AddressSpace.filled cleared
    refine if_congr ?_ rfl rfl
    bv_omega
  exact congrArg (fun space => Except.ok (a, space)) hspace

section Boot

variable {size : ℕ} {s : State} {y : StartSymbols} (h : Booting size s y)

include h

theorem Booting.parts : Holds s.mem s.pc (la 2 s.pc y.stackTop) ∧
    Holds s.mem (s.pc + 8) (la 3 (s.pc + 8) y.globalPointer) ∧
    Holds s.mem (s.pc + 16) (la 5 (s.pc + 16) y.bssStart) ∧
    Holds s.mem (s.pc + 24) (la 6 (s.pc + 24) y.bssEnd) ∧
    Holds s.mem (s.pc + 32) lclear ∧ Holds s.mem (s.pc + 48) (call (s.pc + 48) y.main) ∧
    Holds s.mem (s.pc + 56) exitService := by
  obtain ⟨hsp, h8⟩ := h.code.append
  obtain ⟨hgp, h16⟩ := h8.append
  rw [BitVec.add_assoc] at h16
  obtain ⟨ht0, h24⟩ := h16.append
  rw [BitVec.add_assoc] at h24
  obtain ⟨ht1, h32⟩ := h24.append
  rw [BitVec.add_assoc] at h32
  obtain ⟨hloop, h48⟩ := h32.append
  rw [BitVec.add_assoc] at h48
  obtain ⟨hcall, h56⟩ := h48.append
  rw [BitVec.add_assoc] at h56
  exact ⟨hsp, hgp, ht0, ht1, hloop, hcall, h56.append.1⟩

theorem Booting.loads {k : ℕ} (hk : k < 4) (reg : Rv32i.Reg → Word) {rd : Rv32i.Reg} (hrd : rd ≠ 0)
    {symbol : Word} (hcode : Holds s.mem (s.pc + BitVec.ofNat 32 (8 * k))
      (la rd (s.pc + BitVec.ofNat 32 (8 * k)) symbol)) :
    ∃ pcs, pcs.length = 2 ∧ Run (Rv32i.traced size) (addressed s k reg) pcs
      (addressed s (k + 1) (Function.update reg rd symbol)) := by
  have hal := h.pcAligned
  have hin := h.pcInside
  have hend : addressed s (k + 1) (Function.update reg rd symbol) =
      { addressed s k reg with
        reg := Function.update reg rd symbol
        pc := s.pc + BitVec.ofNat 32 (8 * k) + 8
        retired := s.retired + BitVec.ofNat 64 (2 * k) + 2 } := by
    rw [addressed, addressed, BitVec.add_assoc, BitVec.add_assoc, Nat.mul_succ, Nat.mul_succ,
      BitVec.ofNat_add, BitVec.ofNat_add]
    rfl
  rw [hend]
  exact ⟨_, rfl, Rv32i.Run.la (s := addressed s k reg) hrd (by simp only [addressed]; bv_omega)
    (by simp only [addressed]; bv_omega) hcode⟩

theorem Booting.pointers : ∃ pcs, pcs.length = 8 ∧
    Run (Rv32i.traced size) s pcs (addressed s 4 (withPointers s.reg y y.bssStart)) := by
  obtain ⟨hsp, hgp, ht0, ht1, -⟩ := h.parts
  have hstart : addressed s 0 s.reg = s := by
    rw [addressed, BitVec.add_zero, BitVec.add_zero]
  have hpc : s.pc = s.pc + BitVec.ofNat 32 0 := (BitVec.add_zero s.pc).symm
  rw [hpc] at hsp
  obtain ⟨ps, hps, r1⟩ := h.loads (k := 0) (by decide) s.reg (by decide) hsp
  obtain ⟨qs, hqs, r2⟩ := h.loads (k := 1) (by decide) _ (by decide) hgp
  obtain ⟨rs, hrs, r3⟩ := h.loads (k := 2) (by decide) _ (by decide) ht0
  obtain ⟨ts, hts, r4⟩ := h.loads (k := 3) (by decide) _ (by decide) ht1
  rw [hstart] at r1
  refine ⟨ps ++ (qs ++ (rs ++ ts)), ?_, r1.append (r2.append (r3.append r4))⟩
  simp only [List.length_append, hps, hqs, hrs, hts]

theorem Booting.startup (hsize : size < 2 ^ 32) :
    Startup size (addressed s 4 (withPointers s.reg y y.bssStart)) y.bssStart y.bssEnd := by
  have hal := h.pcAligned
  have hin := h.pcInside
  have hpc : (addressed s 4 (withPointers s.reg y y.bssStart)).pc = s.pc + 32 := rfl
  have ht1 : (addressed s 4 (withPointers s.reg y y.bssStart)).reg 6 = y.bssEnd := by
    simp only [addressed, withPointers, Function.update_self]
  refine ⟨h.parts.2.2.2.2.1, ?_, ?_, hsize, ht1, h.startAligned, h.endAligned,
    h.endInside, fun a hlo hhi => ?_⟩
  · rw [hpc]
    bv_omega
  · rw [hpc]
    bv_omega
  · rw [hpc]
    have hout := h.apart a hlo hhi
    bv_omega

theorem Booting.clears (hsize : size < 2 ^ 32) : ∃ pcs,
    pcs.length = y.bssEnd.toNat - y.bssStart.toNat + 1 ∧
      Run (Rv32i.traced size) (addressed s 4 (withPointers s.reg y y.bssStart)) pcs
        { addressed s 6 (withPointers s.reg y y.bssEnd) with
          retired := s.retired + BitVec.ofNat 64 (pcs.length + 8)
          mem := cleared s.mem y.bssStart y.bssEnd } := by
  have hloop := h.startup hsize
  have hordered := h.ordered
  have hsa := h.startAligned
  have hea := h.endAligned
  have hleft : y.bssStart.toNat + 4 * ((y.bssEnd.toNat - y.bssStart.toNat) / 4) = y.bssEnd.toNat := by
    bv_omega
  have hhead : clearing (addressed s 4 (withPointers s.reg y y.bssStart)) y.bssStart y.bssStart
      (s.retired + 8) = addressed s 4 (withPointers s.reg y y.bssStart) := by
    have hreg : Function.update (withPointers s.reg y y.bssStart) 5 y.bssStart =
        withPointers s.reg y y.bssStart := by
      refine Function.update_eq_self_iff.mpr ?_
      rw [withPointers, Function.update_of_ne (by decide), Function.update_self]
    rw [clearing, cleared_self]
    exact congrArg (fun reg => addressed s 4 reg) hreg
  obtain ⟨pcs, n, hrun, hlength, -⟩ := hloop.clears ((y.bssEnd.toNat - y.bssStart.toNat) / 4) hleft
    (BitVec.le_refl _) h.startAligned (s.retired + 8)
  have hcount := Rv32i.Run.retired hrun
  rw [hhead] at hrun hcount
  refine ⟨pcs, by omega, ?_⟩
  have hlast : (clearing (addressed s 4 (withPointers s.reg y y.bssStart)) y.bssStart y.bssEnd
      n).retire ((addressed s 4 (withPointers s.reg y y.bssStart)).pc + 16) =
      { addressed s 6 (withPointers s.reg y y.bssEnd) with
        retired := s.retired + BitVec.ofNat 64 (pcs.length + 8)
        mem := cleared s.mem y.bssStart y.bssEnd } := by
    have hreg : Function.update (withPointers s.reg y y.bssStart) 5 y.bssEnd =
        withPointers s.reg y y.bssEnd := by
      rw [withPointers, withPointers, Function.update_comm (by decide), Function.update_idem]
    have hpc : s.pc + 32 + 16 = s.pc + 48 := BitVec.add_assoc ..
    have hretired : n + 1 = s.retired + BitVec.ofNat 64 (pcs.length + 8) := by
      rw [Nat.add_comm, BitVec.ofNat_add, ← BitVec.add_assoc]
      exact hcount
    rw [State.retire, clearing]
    simp only [addressed]
    rw [hreg, ← hretired]
    exact congrArg (fun pc => State.mk _ pc _ _) hpc
  rw [← hlast]
  exact hrun

theorem Booting.enters (hsize : size < 2 ^ 32) : ∃ pcs, pcs.length = startSteps y ∧
    Run (Rv32i.traced size) s pcs (entered s y) := by
  obtain ⟨ps, hps, hpointers⟩ := h.pointers
  obtain ⟨qs, hqs, hclears⟩ := h.clears hsize
  have hal := h.pcAligned
  have hin := h.pcInside
  have hpc : s.pc + 48 + 8 = s.pc + 56 := BitVec.add_assoc ..
  have hcode : Holds (cleared s.mem y.bssStart y.bssEnd) (s.pc + 48) (call (s.pc + 48) y.main) := by
    refine h.parts.2.2.2.2.2.1.congr ?_ fun a hlo hhi => if_neg fun hc => ?_
    · change (s.pc + 48).toNat + 8 ≤ 2 ^ 32
      bv_omega
    · change a.toNat < (s.pc + 48).toNat + 8 at hhi
      have hout := h.apart a hc.1 hc.2
      bv_omega
  have hcall : Run (Rv32i.traced size) _ _ _ := Rv32i.Run.call (s := { addressed s 6 (withPointers s.reg y y.bssEnd) with
        retired := s.retired + BitVec.ofNat 64 (qs.length + 8)
        mem := cleared s.mem y.bssStart y.bssEnd })
    (by simp only [addressed]; bv_omega) (by simp only [addressed]; bv_omega) h.mainAligned hcode
  refine ⟨ps ++ (qs ++ [s.pc + 48, s.pc + 48 + 4]), ?_, ?_⟩
  · simp only [List.length_append, List.length_cons, List.length_nil, hps, hqs, startSteps]
    omega
  · have hlength : startSteps y = qs.length + 8 + 2 := by
      rw [startSteps, hqs]
    have hend : entered s y =
        { addressed s 6 (withPointers s.reg y y.bssEnd) with
          reg := Function.update (withPointers s.reg y y.bssEnd) 1 (s.pc + 48 + 8)
          pc := y.main
          retired := s.retired + BitVec.ofNat 64 (qs.length + 8) + 2
          mem := cleared s.mem y.bssStart y.bssEnd } := by
      rw [entered, hlength, hpc, BitVec.ofNat_add _ 2, BitVec.add_assoc]
      rfl
    rw [hend]
    exact hpointers.append (hclears.append hcall)

end Boot

/-! ## The end of the run -/

/-- What `main` leaves behind it when it returns. -/
structure Returned (s t : State) : Prop where
  pc : t.pc = s.pc + 56
  stub : Holds t.mem t.pc exitService

theorem Returned.run {size : ℕ} {s t : State} (h : Returned s t) (hacc : accessible size t.pc 4) :
    Run (Rv32i.traced size) t [t.pc] (t.setX 17 93).next := by
  have hcode := h.stub 0 _ rfl
  rw [Nat.mul_zero, BitVec.add_zero] at hcode
  refine Rv32i.Run.instr hacc hcode ?_
  have hvalue : t.x 0 + Rv32i.offsetI 93 = 93 := by
    rw [State.x, if_pos rfl]
    decide
  rw [Rv32i.exec, Rv32i.ImmOp.toRegOp, Rv32i.RegOp.eval, hvalue]

theorem Booting.calls {size : ℕ} {s t : State} {y : StartSymbols} (h : Booting size s y)
    (hsize : size < 2 ^ 32) {pcs : List Word}
    (hmain : Run (Rv32i.traced size) (entered s y) pcs t) (hreturned : Returned s t) :
    ∃ qs u, qs.length = startSteps y + pcs.length + 1 ∧ Run (Rv32i.traced size) s qs u ∧
      Calls size 93 u ∧ u.reg 10 = t.reg 10 := by
  have hal := h.pcAligned
  have hin := h.pcInside
  obtain ⟨qs, hqs, henters⟩ := h.enters hsize
  have hpc := hreturned.pc
  have hacc : accessible size t.pc 4 ∧ accessible size (t.pc + 4) 4 := by
    rw [hpc]
    refine ⟨⟨?_, ?_⟩, ?_, ?_⟩ <;> bv_omega
  have hreg : (t.setX 17 93).next.reg = Function.update t.reg 17 93 := by
    rw [State.setX, if_neg (by decide)]
    rfl
  refine ⟨qs ++ (pcs ++ [t.pc]), _, ?_, henters.append (hmain.append (hreturned.run hacc.1)),
    ⟨hacc.2, hreturned.stub 1 _ rfl, ?_⟩, ?_⟩
  · rw [List.length_append, List.length_append, hqs, List.length_singleton, Nat.add_assoc]
  · rw [hreg, Function.update_self]
  · rw [hreg, Function.update_of_ne (by decide)]

/-- The machine at the first instruction of `main`. -/
structure AtMain (m m' : Machine) (y : StartSymbols) : Prop where
  active : active m'
  hart : hart m'.cpu m'.memory = entered (hart m.cpu m.memory) y
  programCounter : m'.cpu.programCounter = y.main
  returnAddress : m'.cpu.registers 1 = m.cpu.programCounter + 56
  stackPointer : m'.cpu.registers 2 = y.stackTop
  globalPointer : m'.cpu.registers 3 = y.globalPointer
  cleared : memset m.memory.at y.bssStart 0 (y.bssEnd - y.bssStart) = .ok (y.bssStart, m'.memory.at)

theorem atMain_of_mirrors {m m' : Machine} {y : StartSymbols} {size : ℕ}
    (h : Mirrors size m' (entered (hart m.cpu m.memory) y)) (hordered : y.bssStart ≤ y.bssEnd) :
    AtMain m m' y := by
  have hreg (r : Rv32i.Reg) : m'.cpu.registers r.toFin = (entered (hart m.cpu m.memory) y).reg r :=
    congrFun (congrArg State.reg h.hart) r
  refine ⟨h.active, h.hart, congrArg State.pc h.hart, hreg 1, (hreg 2).trans ?_, (hreg 3).trans ?_, ?_⟩
  · simp [entered, withPointers]
  · simp [entered, withPointers]
  · have hmem : m'.memory.at = cleared m.memory.at y.bssStart y.bssEnd := congrArg State.mem h.hart
    rw [hmem]
    exact memset_eq_cleared _ hordered

section Exit

variable {m : Machine} {y : StartSymbols} {σ : Type} {shouldStop : Option (σ → Bool × σ)}
  (trace : Option (CpuStepRecord → σ → σ))

/-- A program that starts in `_start` comes to its `main` with the section cleared, the stack at its
top and the return address behind the call. When `main` returns, the run ends with the exit service,
and the status of a batch is the low byte of what `main` returned. -/
theorem start_exits_with_main (ha : active m) (hm : memoryReady m.memory = true)
    (h : Booting m.memory.size (hart m.cpu m.memory) y) :
    (∀ j < startSteps y, (label machineStep j m).reason = .ready) ∧
    AtMain m (after machineStep (startSteps y) m) y ∧
    ∀ {pcs : List Word} {t : State},
      Run (Rv32i.traced m.memory.size) (entered (hart m.cpu m.memory) y) pcs t →
      Returned (hart m.cpu m.memory) t → ∀ {limit : ℕ}, startSteps y + pcs.length + 1 < limit →
      NeverStops shouldStop → ∀ c : σ,
      ∃ run final c', machineRun m limit shouldStop trace c = (run, final, c') ∧
        run.reason = .exited ∧ run.attempts = startSteps y + pcs.length + 2 ∧
        run.retired = startSteps y + pcs.length + 1 ∧ final.exitCode = t.reg 10 ∧
        batchStatus run.reason final.exitCode = (t.reg 10).toNat % 256 := by
  have hsize := ((memorySizeValid_iff _).mp (memoryReady_size hm)).2.1
  have hstart : Mirrors m.memory.size m (hart m.cpu m.memory) := ⟨ha, hm, rfl, rfl⟩
  obtain ⟨ps, hps, henters⟩ := h.enters (by omega)
  obtain ⟨hretires, hmain⟩ := hstart.run henters
  rw [hps] at hmain
  refine ⟨fun j hj => ?_, atMain_of_mirrors hmain h.ordered, ?_⟩
  · rw [← hps] at hj
    exact (hretires j _ (List.getElem?_eq_getElem hj)).reason
  intro pcs t hbody hreturned limit hlimit hnever c
  obtain ⟨qs, u, hqs, hrun, hcalls, hcode⟩ := h.calls (by omega) hbody hreturned
  obtain ⟨hlabels, hlast⟩ := hstart.run hrun
  rw [hqs] at hlast
  have hready : ∀ j < startSteps y + pcs.length + 1, (label machineStep j m).reason = .ready := by
    intro j hj
    rw [← hqs] at hj
    exact (hlabels j _ (List.getElem?_eq_getElem hj)).reason
  have hstep := machineStep_exit hlast.active (hlast.isExit_iff.mpr hcalls)
  have hend : (label machineStep (startSteps y + pcs.length + 1) m).reason = .exited :=
    congrArg (fun r => r.1.reason) hstep
  obtain ⟨run, c', hmachine, hreason, hattempts, hretired⟩ :=
    machineRun_first trace hnever ha c hready hlimit hlast.active (by rw [hend]; decide)
  have hcode : (after machineStep (startSteps y + pcs.length + 1 + 1) m).exitCode = t.reg 10 := by
    rw [after_succ', hstep]
    exact (congrFun (congrArg State.reg hlast.hart) 10).trans hcode
  refine ⟨run, _, c', hmachine, hreason.trans hend, hattempts, hretired, hcode, ?_⟩
  rw [hreason, hend, hcode, batchStatus, if_pos rfl, BitVec.toNat_and]
  exact Nat.and_two_pow_sub_one_eq_mod _ 8

/-- Behind `_start`, a `main` of `addi a0, zero, 7` and `jalr zero, 0(ra)`, and a section of one
word that is not zero. -/
def returnsSeven : StartSymbols := ⟨80, 2048, 76, 80, 68⟩

def returnsSevenCode : List Instr := start 0 returnsSeven ++ [.opImm .addi 10 0 7, .jalr 0 1 0]

def returnsSevenMachine : Machine where
  memory := ⟨some ((returnsSevenCode.map Rv32i.encode).flatMap
    (fun w => [w.extractLsb' 0 8, w.extractLsb' 8 8, w.extractLsb' 16 8, w.extractLsb' 24 8]) ++
      [1, 2, 3, 4]), 80, by decide +kernel⟩
  loaded := true

theorem holds_returnsSeven : Holds returnsSevenMachine.memory.at 0 returnsSevenCode := by
  have hwords : ∀ k < 19, (returnsSevenCode.map Rv32i.encode)[k]? =
      some (Rv32i.wordAt returnsSevenMachine.memory.at (0 + BitVec.ofNat 32 (4 * k))) := by
    decide +kernel
  intro k i hi
  have hk := hwords k (List.getElem?_eq_some_iff.mp hi).1
  rw [List.getElem?_map, hi] at hk
  exact (Option.some.inj hk).symm

def returnsSevenStart : State := hart returnsSevenMachine.cpu returnsSevenMachine.memory

theorem booting_returnsSeven : Booting 80 returnsSevenStart returnsSeven := by
  refine ⟨holds_returnsSeven.append.1, by decide, by decide, by decide, by decide, by decide,
    by decide, by decide, fun a hlo _ h => ?_⟩
  have hlo' : 76#32 ≤ a := hlo
  have hhi : a.toNat < (0#32).toNat + 68 := h.2
  bv_omega

def returnedSeven : State :=
  { entered returnsSevenStart returnsSeven with
    reg := Function.update (entered returnsSevenStart returnsSeven).reg 10 7
    pc := 56
    retired := (entered returnsSevenStart returnsSeven).retired + 1 + 1 }

theorem cleared_returnsSeven {l : Word} {is : List Instr} (h : Holds returnsSevenStart.mem l is)
    (hl : l.toNat + 4 * is.length ≤ 76) : Holds returnedSeven.mem l is := by
  refine h.congr (by omega) fun a _ hhi => if_neg fun hc => ?_
  have hlo : 76#32 ≤ a := hc.1
  bv_omega

theorem run_returnsSeven :
    Run (Rv32i.traced 80) (entered returnsSevenStart returnsSeven) [68, 72] returnedSeven := by
  have hcode := cleared_returnsSeven holds_returnsSeven.append.2 (by decide)
  refine Rv32i.Run.pair (by decide) (by decide) hcode (u := { returnedSeven with
    pc := 72
    retired := (entered returnsSevenStart returnsSeven).retired + 1 }) ?_ rfl rfl ?_
  · rfl
  · rfl

theorem returned_returnsSeven : Returned returnsSevenStart returnedSeven :=
  ⟨rfl, cleared_returnsSeven booting_returnsSeven.parts.2.2.2.2.2.2 (by decide)⟩

theorem start_exits_with_seven :
    AtMain returnsSevenMachine (after machineStep (startSteps returnsSeven) returnsSevenMachine)
      returnsSeven ∧
    ∃ run final c', machineRun returnsSevenMachine 100 none none () = (run, final, c') ∧
      batchStatus run.reason final.exitCode = 7 := by
  have hready : memoryReady returnsSevenMachine.memory = true := by decide +kernel
  have hlimit : startSteps returnsSeven + [68#32, 72#32].length + 1 < 100 := by decide
  have hnever : NeverStops (none : Option (Unit → Bool × Unit)) := fun _ => rfl
  obtain ⟨-, hmain, hexits⟩ := @start_exits_with_main returnsSevenMachine returnsSeven Unit none none
    ⟨rfl, rfl⟩ hready booting_returnsSeven
  obtain ⟨run, final, c', hrun, -, -, -, -, hstatus⟩ :=
    hexits run_returnsSeven returned_returnsSeven hlimit hnever ()
  have hseven : (returnedSeven.reg 10).toNat % 256 = 7 := by
    simp only [returnedSeven, Function.update_self]
    rfl
  exact ⟨hmain, run, final, c', hrun, hstatus.trans hseven⟩

end Exit

end Riscv32
