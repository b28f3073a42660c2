import Riscv32Simulator.Control.Schedule
import Riscv32Simulator.Execution.Lockstep
import Riscv32Simulator.Library.Iterated

/-! Two machines side by side, over RAMs of different sizes or with different unread bytes. -/

namespace Riscv32
open Iterated
open Rv32i (Word)

structure Alongside (R : Memory → Memory → Prop) (m m' : Machine) : Prop where
  loaded : m.loaded = true
  loaded' : m'.loaded = true
  cpu : m'.cpu = m.cpu
  exited : m'.exited = m.exited
  exitCode : m'.exitCode = m.exitCode
  memory : R m.memory m'.memory

structure SameOutcome (strict : Prop) (run run' : MachineRun) : Prop where
  reason : run'.reason = run.reason
  attempts : run'.attempts = run.attempts
  retired : run'.retired = run.retired
  last : SameBut strict run.last run'.last

theorem SameOutcome.eq {run run' : MachineRun} (h : SameOutcome True run run') : run' = run := by
  cases run
  cases run'
  rw [MachineRun.mk.injEq]
  exact ⟨h.reason, h.attempts, h.retired, h.last.eq⟩

section Step

variable {R : Memory → Memory → Prop} {strict : Prop} {m m' : Machine}

theorem Alongside.active_iff (h : Alongside R m m') : active m' ↔ active m := by
  rw [active, active, h.loaded, h.loaded', h.exited]

theorem machineStep_lockstep (h : Alongside R m m')
    (ha : active m → Lockstep R strict (machineAttempt m) (machineAttempt m')) :
    SameOutcome strict (machineStep m).1 (machineStep m').1 ∧
      Alongside R (machineStep m).2 (machineStep m').2 := by
  by_cases hm : active m
  · obtain ⟨hresult, hcpu, hmemory, hrecord⟩ := ha hm
    rw [machineStep_eq hm, machineStep_eq (h.active_iff.mpr hm), hresult, hcpu]
    split_ifs
    · exact ⟨⟨rfl, rfl, rfl, hrecord⟩, ⟨h.loaded, h.loaded', hcpu, h.exited, h.exitCode, hmemory⟩⟩
    · exact ⟨⟨rfl, rfl, rfl, hrecord⟩, ⟨h.loaded, h.loaded', hcpu, rfl, rfl, hmemory⟩⟩
    · exact ⟨⟨rfl, rfl, rfl, hrecord⟩, ⟨h.loaded, h.loaded', hcpu, h.exited, h.exitCode, hmemory⟩⟩
  · rw [machineStep_inactive hm, machineStep_inactive (mt h.active_iff.mp hm), h.loaded, h.loaded']
    exact ⟨⟨rfl, rfl, rfl, .refl ..⟩, h⟩

end Step

/-! ## More RAM -/

/-- A RAM that agrees with a smaller one as far as that goes. -/
structure Widens (memory memory' : Memory) : Prop where
  ready : memoryReady memory = true
  ready' : memoryReady memory' = true
  size : memory.size ≤ memory'.size
  byte : ∀ i < memory.size, memory'.byte i = memory.byte i

def Above (top : ℕ → BitVec 8) (memory memory' : Memory) : Prop :=
  ∀ i, memory.size ≤ i → memory'.byte i = top i

def AccessFault (r : CpuStepRecord) : Prop :=
  r.trap.raised = true ∧ (r.trap.cause = .instructionAccess ∨ r.trap.cause = .loadAccess ∨
    r.trap.cause = .storeAccess)

instance (r : CpuStepRecord) : Decidable (AccessFault r) := inferInstanceAs (Decidable (_ ∧ _))

section Widens

variable {top : ℕ → BitVec 8} {memory memory' : Memory} {store : Bool} {a : Word} {width : ℕ}

theorem Widens.serves (h : Widens memory memory') (htop : Above top memory memory')
    (hv : memoryAccessValid memory a width = true) :
    Serves (fun x y => Widens x y ∧ Above top x y) True memory memory' store a width := by
  obtain ⟨hready, hpos, hin, hmod⟩ := (memoryAccessValid_iff ..).mp hv
  have hsome := memoryReady_isSome hready
  have hsome' := memoryReady_isSome h.ready'
  have hin' : a.toNat + width ≤ memory'.size := hin.trans h.size
  have hv' := (memoryAccessValid_iff memory' a width).mpr ⟨h.ready', hpos, hin', hmod⟩
  refine ⟨hv'.trans hv.symm, fun _ _ => ?_, fun _ ys hys => ⟨⟨?_, ?_, h.size, fun i hi => ?_⟩, ?_⟩⟩
  · rw [readValue, readValue, Memory.slice_congr hsome hsome' hin hin' fun i _ hi =>
      h.byte i (by omega)]
  · rw [memoryReady_splice]
    exact hready
  · rw [memoryReady_splice]
    exact h.ready'
  · rw [Memory.byte_splice hsome (by omega), Memory.byte_splice hsome' (by omega), h.byte i hi]
  · intro i hi
    rw [Memory.byte_splice hsome' (by omega), if_neg (by rw [Memory.size_splice] at hi; omega)]
    exact htop i hi

theorem Made.valid {record : CpuStepRecord} (h : Made memory record store a width)
    (hn : ¬ AccessFault record) : memoryAccessValid memory a width = true := by
  by_contra hv
  rw [Made, if_neg hv] at h
  refine hn ⟨h.1, .inr ?_⟩
  rw [h.2]
  cases store
  · exact .inl rfl
  · exact .inr rfl

end Widens

theorem machineAttempt_widens {top : ℕ → BitVec 8} {m m' : Machine}
    (h : Alongside (fun x y => Widens x y ∧ Above top x y) m m')
    (hn : ¬ AccessFault (machineAttempt m).record) :
    Lockstep (fun x y => Widens x y ∧ Above top x y) True (machineAttempt m) (machineAttempt m') := by
  obtain ⟨hw, htop⟩ := h.memory
  rw [machineAttempt, machineAttempt, h.cpu]
  refine cpuStepRecorded_lockstep rfl h.memory (fun hpc => hw.serves htop ?_)
    fun _ _ _ _ _ hmade => hw.serves htop (hmade.valid hn)
  rw [memoryAccessValid_eq _ (by decide) hpc]
  by_contra hram
  refine hn ⟨?_, .inl ?_⟩ <;>
    rw [machineAttempt, (cpuStepRecorded_fetch rfl hpc).2 (Bool.eq_false_iff.mpr hram)]

theorem machineStep_widens {top : ℕ → BitVec 8} {m m' : Machine}
    (h : Alongside (fun x y => Widens x y ∧ Above top x y) m m')
    (hn : ¬ AccessFault (machineStep m).1.last) :
    (machineStep m').1 = (machineStep m).1 ∧
      Alongside (fun x y => Widens x y ∧ Above top x y) (machineStep m).2 (machineStep m').2 := by
  have hattempt : active m → Lockstep (fun x y => Widens x y ∧ Above top x y) True
      (machineAttempt m) (machineAttempt m') := fun ha =>
    machineAttempt_widens h (by rwa [← (machineStep_attempt ha).2])
  exact (machineStep_lockstep h hattempt).imp_left SameOutcome.eq

/-! ### Whole runs -/

section Loop

variable {R : Memory → Memory → Prop} {H : MachineRun → Prop} {σ : Type}
  (shouldStop : Option (σ → Bool × σ)) (trace : Option (CpuStepRecord → σ → σ))

theorem machineRunLoop_attempts_le (n : ℕ) (total : MachineRun) {m : Machine} (ha : active m) (c : σ) :
    total.attempts ≤ (machineRunLoop shouldStop trace n total m c).1.attempts := by
  obtain ⟨rs, -, h, -⟩ := machineRunLoop_collects shouldStop trace n total ha c []
  omega

theorem machineRunLoop_alongside
    (hstep : ∀ m m', Alongside R m m' → H (machineStep m).1 →
      (machineStep m').1 = (machineStep m).1 ∧ Alongside R (machineStep m).2 (machineStep m').2)
    (n : ℕ) (total : MachineRun) {m m' : Machine} (ha : active m) (h : Alongside R m m') (c : σ)
    (hn : ∀ k, total.attempts + k < (machineRunLoop shouldStop trace n total m c).1.attempts →
      H (label machineStep k m)) :
    (machineRunLoop shouldStop trace n total m' c).1 =
        (machineRunLoop shouldStop trace n total m c).1 ∧
      (machineRunLoop shouldStop trace n total m' c).2.2 =
        (machineRunLoop shouldStop trace n total m c).2.2 ∧
      Alongside R (machineRunLoop shouldStop trace n total m c).2.1
        (machineRunLoop shouldStop trace n total m' c).2.1 := by
  induction n generalizing total m m' c with
  | zero => exact ⟨rfl, rfl, h⟩
  | succ n ih =>
    rw [machineRunLoop_succ] at hn ⊢
    rw [machineRunLoop_succ]
    by_cases hstop : (askStop shouldStop c).1
    · rw [if_pos hstop, if_pos hstop]
      refine ⟨rfl, rfl, h.loaded, h.loaded', ?_, h.exited, h.exitCode, h.memory⟩
      rw [machineStop, machineStop, h.cpu]
    · rw [if_neg hstop] at hn ⊢
      rw [if_neg hstop]
      have hone : (total.add (machineStep m).1).attempts = total.attempts + 1 := by
        rw [MachineRun.add, (machineStep_attempt ha).1]
      -- the first attempt is one of those counted, whatever follows
      have hfirst : H (machineStep m).1 := by
        refine hn 0 ?_
        split_ifs with hr
        · exact (Nat.lt_succ_self _).trans_eq hone.symm
        · have hnext := (machineStep_active_of_ready (not_not.mp hr)).2
          refine lt_of_lt_of_le ?_ (machineRunLoop_attempts_le shouldStop trace n _ hnext _)
          exact (Nat.lt_succ_self _).trans_eq hone.symm
      obtain ⟨hrun, hnext⟩ := hstep m m' h hfirst
      rw [hrun]
      by_cases hr : (machineStep m).1.reason ≠ .ready
      · rw [if_pos hr, if_pos hr]
        exact ⟨rfl, rfl, hnext⟩
      · rw [if_neg hr] at hn ⊢
        rw [if_neg hr]
        refine ih _ (machineStep_active_of_ready (not_not.mp hr)).2 hnext _ fun k hk => ?_
        rw [← label_succ]
        exact hn (k + 1) (by omega)

theorem machineRun_alongside
    (hstep : ∀ m m', Alongside R m m' → H (machineStep m).1 →
      (machineStep m').1 = (machineStep m).1 ∧ Alongside R (machineStep m).2 (machineStep m').2)
    {m m' : Machine} (h : Alongside R m m') (limit : ℕ) (c : σ)
    (hn : ∀ k < (machineRun m limit shouldStop trace c).1.attempts,
      H (label machineStep k m)) :
    (machineRun m' limit shouldStop trace c).1 = (machineRun m limit shouldStop trace c).1 ∧
      (machineRun m' limit shouldStop trace c).2.2 = (machineRun m limit shouldStop trace c).2.2 ∧
      Alongside R (machineRun m limit shouldStop trace c).2.1
        (machineRun m' limit shouldStop trace c).2.1 := by
  by_cases ha : active m ∧ limit ≠ 0
  · rw [machineRun_active _ _ ha.1 ha.2] at hn ⊢
    rw [machineRun_active _ _ (h.active_iff.mpr ha.1) ha.2]
    refine machineRunLoop_alongside shouldStop trace hstep limit {} ha.1 h c fun k hk => hn k ?_
    rwa [← Nat.zero_add k]
  · have ha' : ¬ (active m' ∧ limit ≠ 0) := fun hc => ha (hc.imp_left h.active_iff.mp)
    rw [machineRun_inactive _ _ ha, machineRun_inactive _ _ ha', h.loaded, h.loaded']
    exact ⟨rfl, rfl, h⟩

end Loop

/-- A run that fits the smaller RAM is the same over a larger one, however it is advanced: by steps,
or by a run of at most as many attempts with any callbacks. -/
theorem more_ram_same_run {m m' : Machine} (h : Alongside Widens m m') (n : ℕ)
    (hn : ∀ k < n, ¬ AccessFault (label machineStep k m).last) :
    (∀ k < n, label machineStep k m' = label machineStep k m) ∧
    (∀ k ≤ n, Alongside (fun x y => Widens x y ∧ Above m'.memory.byte x y)
      (after machineStep k m) (after machineStep k m')) ∧
    ∀ (σ : Type) (limit : ℕ) (shouldStop : Option (σ → Bool × σ))
      (trace : Option (CpuStepRecord → σ → σ)) (c : σ),
      (machineRun m limit shouldStop trace c).1.attempts ≤ n →
      (machineRun m' limit shouldStop trace c).1 = (machineRun m limit shouldStop trace c).1 ∧
        (machineRun m' limit shouldStop trace c).2.2 =
          (machineRun m limit shouldStop trace c).2.2 ∧
        Alongside (fun x y => Widens x y ∧ Above m'.memory.byte x y)
          (machineRun m limit shouldStop trace c).2.1
          (machineRun m' limit shouldStop trace c).2.1 := by
  have h0 : Alongside (fun x y => Widens x y ∧ Above m'.memory.byte x y) m m' :=
    ⟨h.loaded, h.loaded', h.cpu, h.exited, h.exitCode, h.memory, fun _ _ => rfl⟩
  obtain ⟨hlabels, hafter⟩ := lockstep (Q := fun run run' => run' = run)
    (H := fun run : MachineRun => ¬ AccessFault run.last) (fun _ _ => machineStep_widens) h0 hn
  refine ⟨hlabels, hafter, fun σ limit shouldStop trace c hle => ?_⟩
  exact machineRun_alongside shouldStop trace (H := fun run => ¬ AccessFault run.last)
    (fun _ _ => machineStep_widens) h0 limit c fun k hk => hn k (hk.trans_le hle)

def storeMachine (bytes : List (BitVec 8)) : Machine where
  memory := (Memory.zeroed (4 + bytes.length)).splice 0 ([0x23#8, 0x22#8, 0#8, 0#8] ++ bytes)
  loaded := true

theorem more_ram_same_run_store :
    label machineStep 0 (storeMachine [0, 0, 0, 0, 1, 2, 3, 4]) =
      label machineStep 0 (storeMachine [0, 0, 0, 0]) := by
  have h : Alongside Widens (storeMachine [0, 0, 0, 0]) (storeMachine [0, 0, 0, 0, 1, 2, 3, 4]) :=
    ⟨rfl, rfl, rfl, rfl, rfl, by decide +kernel, by decide +kernel, by decide, by decide +kernel⟩
  exact (more_ram_same_run h 1 (by decide +kernel)).1 0 one_pos

/-! ## Unread bytes -/

structure AgreeOutside (U : Set ℕ) (memory memory' : Memory) : Prop where
  ready : memoryReady memory = true
  ready' : memoryReady memory' = true
  size : memory'.size = memory.size
  byte : ∀ i ∉ U, memory'.byte i = memory.byte i

/-- Neither the fetch nor a completed load of an attempt touches `U`. -/
structure ReadsOutside (U : Set ℕ) (r : CpuStepRecord) : Prop where
  fetch : r.fetched = true → ∀ i, r.pcBefore.toNat ≤ i → i < r.pcBefore.toNat + 4 → i ∉ U
  load : r.memory.completed = true → r.memory.write = false →
    ∀ i, r.memory.address.toNat ≤ i → i < r.memory.address.toNat + r.memory.width.toNat → i ∉ U

section Unread

variable {U : Set ℕ}

theorem AgreeOutside.serves {memory memory' : Memory} (h : AgreeOutside U memory memory')
    {store : Bool} {a : Word} {width : ℕ}
    (hU : memoryAccessValid memory a width = true → store = false →
      ∀ i, a.toNat ≤ i → i < a.toNat + width → i ∉ U) :
    Serves (AgreeOutside U) False memory memory' store a width := by
  have hsome := memoryReady_isSome h.ready
  have hsome' := memoryReady_isSome h.ready'
  refine ⟨?_, fun hv hs => ?_, fun hv ys hys => ⟨?_, ?_, h.size, fun i hi => ?_⟩⟩
  · rw [memoryAccessValid, memoryAccessValid, h.ready, h.ready', h.size]
  · obtain ⟨-, -, hin, -⟩ := (memoryAccessValid_iff ..).mp hv
    have hs' : store = false := hs.resolve_left not_false
    rw [readValue, readValue, Memory.slice_congr hsome hsome' hin (h.size ▸ hin) fun i hlo hhi =>
      h.byte i (hU hv hs' i hlo hhi)]
  · rw [memoryReady_splice]
    exact h.ready
  · rw [memoryReady_splice]
    exact h.ready'
  · obtain ⟨-, -, hin, -⟩ := (memoryAccessValid_iff ..).mp hv
    have hsize := h.size
    rw [Memory.byte_splice hsome (by omega), Memory.byte_splice hsome' (by omega), h.byte i hi]

theorem machineAttempt_outside {m m' : Machine} (h : Alongside (AgreeOutside U) m m')
    (hn : ReadsOutside U (machineAttempt m).record) :
    Lockstep (AgreeOutside U) False (machineAttempt m) (machineAttempt m') := by
  rw [machineAttempt, machineAttempt, h.cpu]
  refine cpuStepRecorded_lockstep rfl h.memory (fun hpc => h.memory.serves fun hv _ => ?_)
    fun store a width hwidth _ hmade => h.memory.serves fun hv hs => ?_
  · have hfetched : (machineAttempt m).record.fetched = true := by
      refine (cpuStepRecorded_fetch rfl hpc).1 ?_
      rwa [← memoryAccessValid_eq _ (by decide) hpc]
    have hpcBefore : (machineAttempt m).record.pcBefore = m.cpu.programCounter :=
      (cpuStepRecorded_before ..).1
    rw [← hpcBefore]
    exact hn.fetch hfetched
  · rw [Made, if_pos hv] at hmade
    obtain ⟨hcompleted, hwrite, haddress, hbytes⟩ := hmade
    have hlt : width < 256 := by obtain rfl | rfl | rfl := hwidth <;> decide
    have hload := hn.load hcompleted (hwrite.trans hs)
    have hw : (machineAttempt m).record.memory.width.toNat = width := by
      rw [show (machineAttempt m).record.memory.width = _ from hbytes, BitVec.toNat_ofNat,
        Nat.mod_eq_of_lt hlt]
    rwa [hw, show (machineAttempt m).record.memory.address = a from haddress] at hload

theorem machineStep_outside {m m' : Machine} (h : Alongside (AgreeOutside U) m m')
    (hn : ReadsOutside U (machineStep m).1.last) :
    SameOutcome False (machineStep m).1 (machineStep m').1 ∧
      Alongside (AgreeOutside U) (machineStep m).2 (machineStep m').2 :=
  machineStep_lockstep h fun ha =>
    machineAttempt_outside h (by rwa [← (machineStep_attempt ha).2])

/-- Bytes that are neither fetched nor loaded make no difference: the attempts agree but for the
values that stores overwrite, and the RAMs still differ in those bytes only. -/
theorem unread_bytes_same_run {m m' : Machine} (h : Alongside (AgreeOutside U) m m') (n : ℕ)
    (hn : ∀ k < n, ReadsOutside U (label machineStep k m).last) :
    (∀ k < n, SameOutcome False (label machineStep k m) (label machineStep k m')) ∧
      ∀ k ≤ n, Alongside (AgreeOutside U) (after machineStep k m) (after machineStep k m') :=
  lockstep (H := fun run : MachineRun => ReadsOutside U run.last)
    (fun _ _ => machineStep_outside) h hn

end Unread

theorem unread_bytes_same_run_store :
    SameOutcome False (label machineStep 0 (storeMachine [0, 0, 0, 0]))
      (label machineStep 0 (storeMachine [1, 2, 3, 4])) := by
  have h : Alongside (AgreeOutside {i | 4 ≤ i ∧ i < 8}) (storeMachine [0, 0, 0, 0])
      (storeMachine [1, 2, 3, 4]) := by
    refine ⟨rfl, rfl, rfl, rfl, rfl, by decide +kernel, by decide +kernel, rfl, fun i hi => ?_⟩
    obtain hi | hi : i < 4 ∨ 8 ≤ i := by
      by_contra hc
      exact hi ⟨by omega, by omega⟩
    · interval_cases i <;> decide +kernel
    · rw [Memory.byte, Memory.byte, List.getD_eq_default _ _ hi, List.getD_eq_default _ _ hi]
  refine (unread_bytes_same_run h 1 fun k hk => ?_).1 0 Nat.one_pos
  obtain rfl : k = 0 := by omega
  have hpc : (label machineStep 0 (storeMachine [0, 0, 0, 0])).last.pcBefore = 0 := by
    decide +kernel
  have hstore : (label machineStep 0 (storeMachine [0, 0, 0, 0])).last.memory.write = true := by
    decide +kernel
  refine ⟨fun _ i _ hi hU => ?_, fun _ hload => ?_⟩
  · rw [hpc] at hi
    exact absurd (hU.1.trans_lt hi) (by decide)
  · exact absurd (hstore.symm.trans hload) (by decide)

end Riscv32
