import Riscv32Simulator.Control.Accounting
import Riscv32Simulator.Control.GuestRun
import Riscv32Simulator.Control.Invariant

/-! Runs of a machine as runs of the hart under an environment that interrupts it and offers the
exit service. -/

namespace Riscv32
open Iterated LabelledRun
open Rv32i (State Word accessible wordAt)

/-! ## The hart -/

def Calls (size : ℕ) (n : Word) (s : State) : Prop :=
  accessible size s.pc 4 ∧ wordAt s.mem s.pc = Rv32i.encode .ecall ∧ s.reg 17 = n

instance (size : ℕ) (n : Word) (s : State) : Decidable (Calls size n s) :=
  inferInstanceAs (Decidable (_ ∧ _))

inductive Ending
  | exit (code : Word)
  | trap
  | limit
  | interrupt
deriving DecidableEq

/-- How at most `attempts` instructions of the hart end. Before each of them the interrupt is looked
at; an instruction that does not retire is a trap unless it asks for the exit service. -/
def ending (size : ℕ) (interrupted : ℕ → Bool) : (attempts : ℕ) → (look : ℕ) → State → Ending
  | 0, _, _ => .limit
  | n + 1, look, s =>
    if interrupted look then .interrupt
    else (Rv32i.step size s).elim (if Calls size 93 s then .exit (s.reg 10) else .trap)
      (ending size interrupted n (look + 1))

theorem ending_run {size : ℕ} {interrupted : ℕ → Bool} {s t : State} {pcs : List Word}
    (h : Run (Rv32i.traced size) s pcs t) (n : ℕ) {look : ℕ}
    (hquiet : ∀ k < pcs.length, interrupted (look + k) = false) :
    ending size interrupted (pcs.length + n) look s =
      ending size interrupted n (look + pcs.length) t := by
  induction h generalizing look with
  | nil => rw [List.length_nil, Nat.zero_add, Nat.add_zero]
  | @cons s u t pc pcs hstep _ ih =>
    obtain ⟨v, hv, hpair⟩ := Option.map_eq_some_iff.mp hstep
    obtain ⟨-, rfl⟩ := Prod.mk.inj hpair
    have hfirst : interrupted look = false := hquiet 0 (Nat.succ_pos _)
    have hrest : ∀ k < pcs.length, interrupted (look + 1 + k) = false := by
      intro k hk
      rw [Nat.add_assoc, Nat.add_comm 1]
      exact hquiet (k + 1) (Nat.succ_lt_succ hk)
    rw [List.length_cons, Nat.add_right_comm, ending, hfirst, if_neg Bool.false_ne_true, hv,
      Option.elim_some, ih hrest, Nat.add_assoc look, Nat.add_comm 1]

theorem Calls.step_eq_none {size : ℕ} {n : Word} {s : State} (h : Calls size n s) :
    Rv32i.step size s = none := by
  obtain ⟨hacc, hword, -⟩ := h
  rw [Rv32i.step, if_pos hacc, hword, Rv32i.decode_encode]
  rfl

theorem ending_exit {size : ℕ} {interrupted : ℕ → Bool} {s : State} (h : Calls size 93 s) (n : ℕ)
    {look : ℕ} (hquiet : interrupted look = false) :
    ending size interrupted (n + 1) look s = .exit (s.reg 10) := by
  rw [ending, hquiet, if_neg Bool.false_ne_true, h.step_eq_none, Option.elim_none, if_pos h]

def Ending.reason : Ending → MachineStop
  | .exit _ => .exited
  | .trap => .trap
  | .limit => .limit
  | .interrupt => .stopped

/-! ## The machine -/

theorem attempt_ecall {cpu : Cpu} {memory : Memory} (hh : cpu.halted = false)
    (hal : misaligned cpu.programCounter 4 = false) (hram : inRam memory cpu.programCounter 4 = true)
    (hi : instrAt cpu memory = some .ecall) : (cpuStepRecorded cpu memory).result = .ecall := by
  have hfirst : firstTrap cpu memory = some ⟨instrAt cpu memory == some .ecall, .ecall, .userEcall, 0,
      true⟩ := by
    simp [firstTrap, trapChecks, hal, hram, hi]
  rcases cpuStepRecorded_cases cpu memory with hhalted | ⟨c, hc, ht⟩ | ⟨hnone, -⟩
  · rw [hh] at hhalted
    cases hhalted
  · rw [hfirst] at hc
    obtain rfl := Option.some.inj hc
    exact ht.result
  · rw [hfirst] at hnone
    cases hnone

section Mirrors

variable {size : ℕ} {m : Machine} {s : State}

theorem Mirrors.not_ok (h : Mirrors size m s) (hs : Rv32i.step size s = none) :
    (machineAttempt m).result ≠ .ok := by
  obtain ⟨-, hm, rfl, rfl⟩ := h
  have hrefines : StepRefines { m.cpu with halted := false } m.memory := cpuStep_refines rfl hm
  have hs' : Rv32i.step m.memory.size (Riscv32.hart { m.cpu with halted := false } m.memory) = none := hs
  unfold StepRefines at hrefines
  rw [hs'] at hrefines
  exact hrefines.1

theorem Mirrors.isExit_iff (h : Mirrors size m s) : isExit m ↔ Calls size 93 s := by
  obtain ⟨-, hm, rfl, rfl⟩ := h
  constructor
  · rintro ⟨hresult, ha7⟩
    rcases cpuStepRecorded_cases { m.cpu with halted := false } m.memory with
      hh | ⟨c, hc, ht⟩ | ⟨-, i, -, hr⟩
    · cases hh
    · obtain ⟨hal, hram, hi⟩ := firstTrap_ecall hc (ht.result.symm.trans hresult)
      exact ⟨(accessible_iff hm _ 4).mpr ⟨hal, hram⟩, (Rv32i.encode_of_decode hi).symm, ha7⟩
    · cases hr.result.symm.trans hresult
  · rintro ⟨hacc, hword, ha7⟩
    obtain ⟨hal, hram⟩ := (accessible_iff hm _ 4).mp hacc
    have hi : instrAt { m.cpu with halted := false } m.memory = some .ecall :=
      Rv32i.decode_eq_some_iff.mpr hword.symm
    exact ⟨attempt_ecall rfl hal hram hi, ha7⟩

end Mirrors

section Run

variable {σ : Type} {shouldStop : Option (σ → Bool × σ)} {trace : Option (CpuStepRecord → σ → σ)}
  {interrupted : ℕ → Bool} {looks : σ → ℕ}

/-- The stop callback answers as the interrupt stands at each look, and only it counts the looks. -/
structure Watches (shouldStop : Option (σ → Bool × σ)) (trace : Option (CpuStepRecord → σ → σ))
    (interrupted : ℕ → Bool) (looks : σ → ℕ) : Prop where
  answer : ∀ c, (askStop shouldStop c).1 = interrupted (looks c)
  counted : ∀ c, looks (askStop shouldStop c).2 = looks c + 1
  traced : ∀ one c, looks (traceAttempt trace one c) = looks c

/-- A run of the machine ends as that of the hart it stands for. -/
theorem machineRunLoop_ending (h : Watches shouldStop trace interrupted looks) {size : ℕ} (n : ℕ)
    (total : MachineRun) {m : Machine} {s : State} (hm : Mirrors size m s) (c : σ) :
    (machineRunLoop shouldStop trace n total m c).1.reason =
        (ending size interrupted n (looks c) s).reason ∧
      ∀ code, ending size interrupted n (looks c) s = .exit code →
        (machineRunLoop shouldStop trace n total m c).2.1.exitCode = code := by
  induction n generalizing total m s c with
  | zero => exact ⟨rfl, nofun⟩
  | succ n ih =>
    rw [machineRunLoop_succ, h.answer c, ending]
    by_cases hinterrupted : interrupted (looks c) = true
    · rw [if_pos hinterrupted, if_pos hinterrupted]
      exact ⟨rfl, nofun⟩
    · rw [if_neg hinterrupted, if_neg hinterrupted]
      cases hs : Rv32i.step size s with
      | some t =>
        obtain ⟨hretired, hnext⟩ := hm.step hs
        have hrest := ih (total.add (machineStep m).1) hnext
          (traceAttempt trace (machineStep m).1 (askStop shouldStop c).2)
        rw [h.traced, h.counted] at hrest
        rw [if_neg (not_not.mpr hretired.reason)]
        exact hrest
      | none =>
        have hne := hm.not_ok hs
        rw [Option.elim_none]
        by_cases hexit : isExit m
        · rw [machineStep_exit hm.active hexit, if_pos (hm.isExit_iff.mp hexit), if_pos (by nofun)]
          refine ⟨rfl, fun code hcode => ?_⟩
          rw [← Ending.exit.inj hcode, ← hm.hart]
          rfl
        · rw [machineStep_trap hm.active hne hexit, if_neg (mt hm.isExit_iff.mpr hexit),
            if_pos (by nofun)]
          exact ⟨rfl, nofun⟩

end Run

end Riscv32
