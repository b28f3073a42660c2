import Riscv32Simulator.Control.GuestRun

/-! The loop of `start.S` that clears the BSS section. -/

namespace Riscv32
open Iterated LabelledRun
open Rv32i (Instr State Word traced Holds accessible)

/-- From `.Lclear` on: `bgeu t0, t1, .Lmain`, `sw zero, 0(t0)`, `addi t0, t0, 4` and
`jal zero, .Lclear`. -/
def lclear : List Instr := [.branch .bgeu 5 6 8, .store .sw 5 0 0, .opImm .addi 5 5 4, .jal 0 (-6)]

example : lclear.map Rv32i.encode = [0x0062F863#32, 0x0002A023#32, 0x00428293#32, 0xFF5FF06F#32] := by
  decide

def cleared (mem : Word → BitVec 8) (a b : Word) : Word → BitVec 8 :=
  fun c => if a ≤ c ∧ c < b then 0 else mem c

theorem cleared_self (mem : Word → BitVec 8) (a : Word) : cleared mem a a = mem := by
  funext c
  exact if_neg fun h => by bv_omega

def clearing (s : State) (start t0 : Word) (retired : BitVec 64) : State :=
  { s with reg := Function.update s.reg 5 t0, retired := retired, mem := cleared s.mem start t0 }

structure Startup (size : ℕ) (s : State) (start fin : Word) : Prop where
  code : Holds s.mem s.pc lclear
  pcAligned : s.pc.toNat % 4 = 0
  pcInside : s.pc.toNat + 16 ≤ size
  small : size < 2 ^ 32
  t1 : s.reg 6 = fin
  startAligned : start.toNat % 4 = 0
  finAligned : fin.toNat % 4 = 0
  finInside : fin.toNat ≤ size
  apart : ∀ a : Word, start ≤ a → a < fin → ¬ (s.pc.toNat ≤ a.toNat ∧ a.toNat < s.pc.toNat + 16)

theorem write_cleared (mem : Word → BitVec 8) {start t0 : Word} (hle : start ≤ t0)
    (hlt : t0.toNat + 4 < 2 ^ 32) :
    Rv32i.StoreOp.write (cleared mem start t0) t0 0 .sw = cleared mem start (t0 + 4) := by
  funext a
  unfold Rv32i.StoreOp.write cleared
  by_cases ha : (a - t0).toNat < Rv32i.StoreOp.sw.width
  · have hin : start ≤ a ∧ a < t0 + 4 := by
      simp only [Rv32i.StoreOp.width] at ha
      bv_omega
    rw [if_pos ha, if_pos hin]
    simp
  · rw [if_neg ha]
    simp only [Rv32i.StoreOp.width] at ha
    refine if_congr (and_congr_right fun _ => ?_) rfl rfl
    bv_omega

section Loop

variable {size : ℕ} {s : State} {start fin t0 : Word} (h : Startup size s start fin)

include h

theorem Startup.holds (hle : t0 ≤ fin) : Holds (cleared s.mem start t0) s.pc lclear := by
  have hin := h.pcInside
  have hsmall := h.small
  refine h.code.congr ?_ ?_
  · simp only [lclear, List.length_cons, List.length_nil]
    omega
  · intro a hlo hhi
    simp only [lclear, List.length_cons, List.length_nil] at hhi
    refine if_neg fun hc => ?_
    exact h.apart a hc.1 (by bv_omega) ⟨hlo, hhi⟩

theorem Startup.accessible {k : ℕ} (hk : k < 4) :
    accessible size (s.pc + BitVec.ofNat 32 (4 * k)) 4 := by
  have hin := h.pcInside
  have hal := h.pcAligned
  have hsmall := h.small
  constructor
  · bv_omega
  · bv_omega

theorem Startup.instr {u t : State} {k : ℕ} {i : Instr} (hk : lclear[k]? = some i)
    (hpc : u.pc = s.pc + BitVec.ofNat 32 (4 * k)) (hcode : Holds u.mem s.pc lclear)
    (hexec : Rv32i.exec size u i = some t) : Run (traced size) u [u.pc] t := by
  have hlt : k < 4 := (List.getElem?_eq_some_iff.mp hk).1
  refine Rv32i.Run.instr ?_ ?_ hexec
  · rw [hpc]
    exact h.accessible hlt
  · rw [hpc]
    exact hcode k i hk

theorem clearing_x (start t0 : Word) (n : BitVec 64) :
    (clearing s start t0 n).x 5 = t0 ∧ (clearing s start t0 n).x 6 = fin := by
  constructor
  · rw [State.x, if_neg (by decide)]
    exact Function.update_self (5 : BitVec 5) t0 s.reg
  · rw [State.x, if_neg (by decide), ← h.t1]
    exact Function.update_of_ne (by decide : (6 : BitVec 5) ≠ 5) t0 s.reg

theorem Startup.exit (n : BitVec 64) :
    Run (traced size) (clearing s start fin n) [s.pc]
      ((clearing s start fin n).retire (s.pc + 16)) := by
  obtain ⟨h5, h6⟩ := clearing_x h start fin n
  have hin := h.pcInside
  have hal := h.pcAligned
  have hsmall := h.small
  have hoff : Rv32i.offsetB 8 = 16#32 := by decide
  have haligned : (s.pc + 16#32).toNat % 4 = 0 := by bv_omega
  refine h.instr (k := 0) rfl (by simp [clearing]) (h.holds (BitVec.le_refl fin)) ?_
  rw [Rv32i.exec, h5, h6, if_pos (by simp [Rv32i.BranchOp.taken]), hoff]
  exact if_pos haligned

theorem Startup.test (hlt : t0 < fin) (n : BitVec 64) :
    Run (traced size) (clearing s start t0 n) [s.pc] (clearing s start t0 n).next := by
  obtain ⟨h5, h6⟩ := clearing_x h start t0 n
  have hnot : ¬ Rv32i.BranchOp.taken .bgeu t0 fin = true := by
    simp only [Rv32i.BranchOp.taken, decide_eq_true_eq]
    bv_omega
  refine h.instr (k := 0) rfl (by simp [clearing]) (h.holds (BitVec.le_of_lt hlt)) ?_
  rw [Rv32i.exec, h5, h6, if_neg hnot]

theorem Startup.store (hle : start ≤ t0) (hlt : t0 < fin) (hal : t0.toNat % 4 = 0) (n : BitVec 64) :
    Run (traced size) (clearing s start t0 n).next [s.pc + 4]
      { (clearing s start t0 n).next with mem := cleared s.mem start (t0 + 4) }.next := by
  have hfin := h.finInside
  have hfal := h.finAligned
  have hsmall := h.small
  have hbelow : t0.toNat + 4 ≤ fin.toNat := by bv_omega
  have hacc : Rv32i.accessible size t0 Rv32i.StoreOp.sw.width := ⟨hal, hbelow.trans hfin⟩
  have hx5 : (clearing s start t0 n).next.x 5 + Rv32i.offsetI 0 = t0 := by
    rw [show Rv32i.offsetI 0 = 0#32 by decide, BitVec.add_zero]
    exact (clearing_x h start t0 n).1
  have hx0 : (clearing s start t0 n).next.x 0 = 0 := rfl
  have hmem := write_cleared s.mem hle (by omega : t0.toNat + 4 < 2 ^ 32)
  refine h.instr (k := 1) rfl rfl (h.holds (BitVec.le_of_lt hlt)) ?_
  rw [Rv32i.exec, hx5, hx0, if_pos hacc]
  exact congrArg (fun mem => some ({ (clearing s start t0 n).next with mem := mem } : State).next) hmem

theorem Startup.add (hnext : t0 + 4 ≤ fin) (n : BitVec 64) :
    Run (traced size) { (clearing s start t0 n).next with mem := cleared s.mem start (t0 + 4) }.next
      [s.pc + 4 + 4] { clearing s start (t0 + 4) (n + 3) with pc := s.pc + 4 + 4 + 4 } := by
  refine h.instr (k := 2) rfl (BitVec.add_assoc s.pc 4 4) (h.holds hnext) ?_
  rw [Rv32i.exec, show Rv32i.offsetI 4 = 4#32 by decide]
  refine congrArg some ?_
  simp [State.next, State.retire, State.setX, clearing, Rv32i.RegOp.eval, Rv32i.ImmOp.toRegOp, State.x,
    add_assoc]

theorem Startup.jump (hnext : t0 + 4 ≤ fin) (n : BitVec 64) :
    Run (traced size) { clearing s start (t0 + 4) (n + 3) with pc := s.pc + 4 + 4 + 4 }
      [s.pc + 4 + 4 + 4] (clearing s start (t0 + 4) (n + 4)) := by
  have hin := h.pcInside
  have hsmall := h.small
  have htarget : s.pc + 4 + 4 + 4 + Rv32i.offsetJ (-6) = s.pc := by
    rw [show Rv32i.offsetJ (-6) = -12#32 by decide]
    bv_omega
  refine h.instr (k := 3) rfl (by simp [BitVec.add_assoc]) (h.holds hnext) ?_
  rw [Rv32i.exec, State.jump]
  dsimp only
  rw [htarget, if_pos h.pcAligned]
  simp [State.retire, State.setX, clearing, add_assoc]

theorem Startup.lap (hle : start ≤ t0) (hlt : t0 < fin) (hal : t0.toNat % 4 = 0) (n : BitVec 64) :
    Run (traced size) (clearing s start t0 n) [s.pc, s.pc + 4, s.pc + 4 + 4, s.pc + 4 + 4 + 4]
      (clearing s start (t0 + 4) (n + 4)) := by
  have hfal := h.finAligned
  have hnext : t0 + 4 ≤ fin := by bv_omega
  have hstore := h.store hle hlt hal n
  exact (h.test hlt n).append (hstore.append ((h.add hnext n).append (h.jump hnext n)))

/-- With `k` words left, the loop takes `4 * k + 1` steps, all of them in its own code. -/
theorem Startup.clears (k : ℕ) (hleft : t0.toNat + 4 * k = fin.toNat) (hle : start ≤ t0)
    (hal : t0.toNat % 4 = 0) (n : BitVec 64) : ∃ pcs n',
      Run (traced size) (clearing s start t0 n) pcs ((clearing s start fin n').retire (s.pc + 16)) ∧
        pcs.length = 4 * k + 1 ∧
        ∀ pc ∈ pcs, s.pc.toNat ≤ pc.toNat ∧ pc.toNat < s.pc.toNat + 16 := by
  have hin := h.pcInside
  have hsmall := h.small
  induction k generalizing t0 n with
  | zero =>
    obtain rfl : t0 = fin := BitVec.eq_of_toNat_eq (by omega)
    refine ⟨[s.pc], n, h.exit n, rfl, ?_⟩
    rw [List.forall_mem_singleton]
    omega
  | succ k ih =>
    have hfin := h.finInside
    have hleft' : (t0 + 4).toNat + 4 * k = fin.toNat := by bv_omega
    have hle' : start ≤ t0 + 4 := by bv_omega
    have hal' : (t0 + 4).toNat % 4 = 0 := by bv_omega
    obtain ⟨pcs, n', hrun, hlen, hpcs⟩ := ih hleft' hle' hal' (n + 4)
    refine ⟨_, n', (h.lap hle (by bv_omega) hal n).append hrun, ?_, ?_⟩
    · rw [List.length_append, hlen]
      simp only [List.length_cons, List.length_nil]
      omega
    · intro pc hpc
      rcases List.mem_append.mp hpc with hlap | hrest
      · simp only [List.mem_cons, List.not_mem_nil, or_false] at hlap
        rcases hlap with rfl | rfl | rfl | rfl <;> bv_omega
      · exact hpcs pc hrest

end Loop

theorem startup_of_machine {m : Machine} (hm : memoryReady m.memory = true) {start fin : Word}
    (hcode : ∀ k < 4, memoryReadU32 m.memory (m.cpu.programCounter + BitVec.ofNat 32 (4 * k)) =
      [0x0062F863#32, 0x0002A023#32, 0x00428293#32, 0xFF5FF06F#32][k]?)
    (ht1 : m.cpu.registers 6 = fin) (hstart : start.toNat % 4 = 0) (hfin : fin.toNat % 4 = 0)
    (hsize : fin.toNat ≤ m.memory.size)
    (happart : ∀ a : Word, start ≤ a → a < fin → ¬ (m.cpu.programCounter.toNat ≤ a.toNat ∧
      a.toNat < m.cpu.programCounter.toNat + 16)) :
    Startup m.memory.size (hart m.cpu m.memory) start fin := by
  have hwords : lclear.map Rv32i.encode =
      [0x0062F863#32, 0x0002A023#32, 0x00428293#32, 0xFF5FF06F#32] := by decide
  have hread : ∀ k < 4, ∀ i, lclear[k]? = some i →
      memoryAccessValid m.memory (m.cpu.programCounter + BitVec.ofNat 32 (4 * k)) 4 = true ∧
        Rv32i.wordAt m.memory.at (m.cpu.programCounter + BitVec.ofNat 32 (4 * k)) = Rv32i.encode i := by
    intro k hk i hi
    have h := hcode k hk
    rw [← hwords, List.getElem?_map, hi, memoryReadU32_eq_wordAt, Option.map_some,
      Option.ite_none_right_eq_some] at h
    exact ⟨h.1, Option.some.inj h.2⟩
  have hlimit := ((memorySizeValid_iff _).mp (memoryReady_size hm)).2.1
  obtain ⟨-, -, hr0, ha0⟩ := (memoryAccessValid_iff _ _ _).mp (hread 0 (by decide) _ rfl).1
  obtain ⟨-, -, hr3, -⟩ := (memoryAccessValid_iff _ _ _).mp (hread 3 (by decide) _ rfl).1
  have hpc : m.cpu.programCounter.toNat % 4 = 0 ∧
      m.cpu.programCounter.toNat + 16 ≤ m.memory.size := by
    constructor <;> bv_omega
  refine ⟨?_, hpc.1, hpc.2, by omega, ht1, hstart, hfin, hsize, happart⟩
  intro k i hi
  exact (hread k (List.getElem?_eq_some_iff.mp hi).1 i hi).2

theorem mirrors_clearing {m : Machine} (ha : active m) (hm : memoryReady m.memory = true)
    {start : Word} (ht0 : m.cpu.registers 5 = start) : Mirrors m.memory.size m
      (clearing (hart m.cpu m.memory) start start m.cpu.instructionCount) := by
  refine ⟨ha, hm, rfl, ?_⟩
  have hreg : Function.update (hart m.cpu m.memory).reg 5 start = (hart m.cpu m.memory).reg := by
    rw [← ht0]
    exact Function.update_eq_self 5 (hart m.cpu m.memory).reg
  rw [clearing, hreg, cleared_self]
  rfl

/-- The start-up loop makes one attempt for each byte of the section and one more, all of them retired
and in its own code. It leaves the section zero and everything else but `t0` as it was. -/
theorem startup_clears_bss {m : Machine} (ha : active m) (hm : memoryReady m.memory = true)
    {l start fin : Word} (hpc : m.cpu.programCounter = l)
    (hcode : ∀ k < 4, memoryReadU32 m.memory (l + BitVec.ofNat 32 (4 * k)) =
      [0x0062F863#32, 0x0002A023#32, 0x00428293#32, 0xFF5FF06F#32][k]?)
    (ht0 : m.cpu.registers 5 = start) (ht1 : m.cpu.registers 6 = fin)
    (hstart : start.toNat % 4 = 0) (hfin : fin.toNat % 4 = 0) (hle : start ≤ fin)
    (hsize : fin.toNat ≤ m.memory.size)
    (happart : ∀ a : Word, start ≤ a → a < fin → ¬ (l.toNat ≤ a.toNat ∧ a.toNat < l.toNat + 16)) :
    (∀ k < fin.toNat - start.toNat + 1, ∃ pc : Word, l.toNat ≤ pc.toNat ∧ pc.toNat < l.toNat + 16 ∧
      RetiredAt pc (label machineStep k m)) ∧
    (after machineStep (fin.toNat - start.toNat + 1) m).cpu.programCounter = l + 16 ∧
    (∀ r, (after machineStep (fin.toNat - start.toNat + 1) m).cpu.registers r =
      if r = 5 then fin else m.cpu.registers r) ∧
    (after machineStep (fin.toNat - start.toNat + 1) m).memory.size = m.memory.size ∧
    ∀ i < m.memory.size, (after machineStep (fin.toNat - start.toNat + 1) m).memory.byte i =
      if start.toNat ≤ i ∧ i < fin.toNat then 0 else m.memory.byte i := by
  subst hpc
  have hstartup := startup_of_machine hm hcode ht1 hstart hfin hsize happart
  have hleft : start.toNat + 4 * ((fin.toNat - start.toNat) / 4) = fin.toNat := by bv_omega
  obtain ⟨pcs, n', hrun, hlen, hpcs⟩ := hstartup.clears ((fin.toNat - start.toNat) / 4) hleft
    (BitVec.le_refl start) hstart m.cpu.instructionCount
  -- the machine takes the same attempts, and ends in the same registers and bytes
  obtain ⟨hlabels, hlast⟩ := (mirrors_clearing ha hm ht0).run hrun
  have hn : pcs.length = fin.toNat - start.toNat + 1 := by omega
  rw [hn] at hlast
  refine ⟨?_, congrArg State.pc hlast.hart, fun r => ?_, hlast.size, fun i hi => ?_⟩
  · intro k hk
    rw [← hn] at hk
    exact ⟨pcs[k], (hpcs _ (List.getElem_mem hk)).1, (hpcs _ (List.getElem_mem hk)).2,
      hlabels k _ (List.getElem?_eq_getElem hk)⟩
  · have hreg := congrFun (congrArg State.reg hlast.hart) (BitVec.ofFin r)
    refine hreg.trans ((Function.update_apply ..).trans (if_congr ?_ rfl rfl))
    exact ⟨fun h => congrArg BitVec.toFin h, fun h => h ▸ rfl⟩
  · have hlimit := ((memorySizeValid_iff _).mp (memoryReady_size hm)).2.1
    have hi32 : (BitVec.ofNat 32 i).toNat = i := by
      rw [BitVec.toNat_ofNat]
      omega
    have hmem := congrFun (congrArg State.mem hlast.hart) (BitVec.ofNat 32 i)
    change (after machineStep _ m).memory.byte (BitVec.ofNat 32 i).toNat =
      if start.toNat ≤ (BitVec.ofNat 32 i).toNat ∧ (BitVec.ofNat 32 i).toNat < fin.toNat then 0
      else m.memory.byte (BitVec.ofNat 32 i).toNat at hmem
    rwa [hi32] at hmem

/-- The loop at address 0 and, up to the top of RAM, a section of two words that are not zero. -/
def bssAtTop : Machine where
  cpu := { registers := fun r => if r = 5 then 16 else if r = 6 then 24 else 0 }
  memory := ⟨some [0x63, 0xF8, 0x62, 0x00, 0x23, 0xA0, 0x02, 0x00, 0x93, 0x82, 0x42, 0x00,
    0x6F, 0xF0, 0x5F, 0xFF, 1, 2, 3, 4, 5, 6, 7, 8], 24, by simp⟩
  loaded := true

theorem startup_clears_bssAtTop : (after machineStep 9 bssAtTop).cpu.programCounter = 16#32 ∧
    (after machineStep 9 bssAtTop).memory.byte 23 = 0 := by
  have hcode : ∀ k < 4, memoryReadU32 bssAtTop.memory (0#32 + BitVec.ofNat 32 (4 * k)) =
      [0x0062F863#32, 0x0002A023#32, 0x00428293#32, 0xFF5FF06F#32][k]? := by decide
  have hapart : ∀ a : Word, 16#32 ≤ a → a < 24#32 →
      ¬ ((0#32).toNat ≤ a.toNat ∧ a.toNat < (0#32).toNat + 16) := by
    intro a h1 h2 h3
    bv_omega
  have hpc : bssAtTop.cpu.programCounter = 0#32 := rfl
  have ht0 : bssAtTop.cpu.registers 5 = 16#32 := rfl
  have ht1 : bssAtTop.cpu.registers 6 = 24#32 := rfl
  have h := startup_clears_bss ⟨rfl, rfl⟩ (by decide) hpc hcode ht0 ht1 (by decide) (by decide)
    (by decide) (by decide) hapart
  rw [show (24#32).toNat - (16#32).toNat + 1 = 9 by decide] at h
  exact ⟨h.2.1, (h.2.2.2.2 23 (by decide)).trans (by decide)⟩

end Riscv32
