import Riscv32Simulator.Control.Callbacks
import Riscv32Simulator.Control.Invariant
import Riscv32Simulator.Control.Reset
import Riscv32Simulator.Monitor.Inspection
import Riscv32Simulator.Source.Interactive

/-! What an interactive session knows of the machine: the machine is where the attempts since the
load or the last reset have taken it, and the record kept is that of the last of them. -/

namespace Riscv32
open Checked Format LabelledRun
open Rv32i (Instr Word)

/-! ## Marks -/

/-- The attempts of `rs` since the load or the last reset took the machine to where it is. -/
structure Logged (p : Program) (s : Session) (rs : List CpuStepRecord) : Prop where
  retains : Retains p s.machine
  invariant : MachineInvariant s.machine
  run : Run nextAttempt (loadedMachine p) rs (resumedMachine s.machine)
  hasRecord : s.hasRecord = !rs.isEmpty
  last : ∀ r ∈ rs.getLast?, s.last = r

section Logged

variable {p : Program} {s : Session} {rs : List CpuStepRecord}

theorem resumed_loadedMachine (p : Program) : resumedMachine (loadedMachine p) = loadedMachine p :=
  rfl

theorem logged_start (hp : machineLoadRejects p = false) (hs : s.machine = loadedMachine p)
    (hr : s.hasRecord = false) : Logged p s [] := by
  refine ⟨?_, ?_, ?_, hr, by simp⟩ <;> rw [hs]
  · exact loadedMachine_retains hp
  · exact loadedMachine_invariant hp
  · rw [resumed_loadedMachine]
    exact .nil _

theorem traceStep_view (files : SourceFiles) (r : CpuStepRecord) (view : TraceView) :
    (traceStep files r view).1.hasRecord = true ∧ (traceStep files r view).1.last = r := by
  unfold traceStep
  dsimp only
  split_ifs <;> exact ⟨rfl, rfl⟩

theorem foldl_traceStep (files : SourceFiles) (rs : List CpuStepRecord) (view : TraceView) :
    (rs.foldl (fun v r => (traceStep files r v).1) view).hasRecord =
        (view.hasRecord || !rs.isEmpty) ∧
      (rs.foldl (fun v r => (traceStep files r v).1) view).last = rs.getLastD view.last := by
  induction rs generalizing view with
  | nil => exact ⟨(Bool.or_false _).symm, rfl⟩
  | cons r rs ih =>
    obtain ⟨hrecord, hlast⟩ := traceStep_view files r view
    obtain ⟨h1, h2⟩ := ih (traceStep files r view).1
    rw [List.foldl_cons, h1, h2, hrecord, hlast, List.getLastD_cons]
    exact ⟨(Bool.or_true _).symm, rfl⟩

theorem folds_view (host : MonitorHost) : Folds (some (shouldStop host)) (some (traceTo host))
    Prod.fst (fun v r => (traceStep host.files r v).1) := by
  refine ⟨fun c => rfl, fun one c h => ?_⟩
  rw [traceAttempt, if_pos (by omega)]
  rfl

theorem Logged.runMachine {host : MonitorHost} {c : Console} (h : Logged p c.session rs)
    (limit : BitVec 64) (trace : Bool) :
    ∃ rs', Logged p (runMachine host c limit trace).session (rs ++ rs') := by
  obtain ⟨rs', run, final, ⟨view, terminal⟩, heq, hrun, hview⟩ :=
    machineRun_folds (folds_view host) c.session.machine limit.toNat
      ({ c.session.toTraceView with trace := trace }, c.terminal)
  obtain ⟨hretains, hinvariant⟩ : Retains p final ∧ MachineInvariant final := by
    have hpreserved := Advance.preserves (P := fun m => Retains p m ∧ MachineInvariant m)
      (fun _ hm => ⟨hm.1.step, hm.2.step⟩) (fun _ hm => ⟨hm.1.stop, hm.2.stop⟩)
      (.run limit.toNat (some (Riscv32.shouldStop host)) (some (traceTo host))
        ({ c.session.toTraceView with trace := trace }, c.terminal)) ⟨h.retains, h.invariant⟩
    rwa [Advance.apply, heq] at hpreserved
  obtain ⟨hrecord, hlast⟩ := foldl_traceStep host.files rs'
    { c.session.toTraceView with trace := trace }
  dsimp only at hview
  rw [← hview] at hrecord hlast
  refine ⟨rs', ?_⟩
  unfold Riscv32.runMachine
  rw [heq]
  refine ⟨hretains, hinvariant, h.run.append hrun, ?_, fun r hr => ?_⟩
  · change view.hasRecord = _
    rw [hrecord]
    dsimp only
    rw [h.hasRecord]
    cases rs <;> rfl
  · change view.last = r
    rw [hlast]
    rcases List.eq_nil_or_concat rs' with rfl | ⟨init, r', rfl⟩
    · rw [List.append_nil] at hr
      exact h.last r hr
    · rw [List.concat_eq_append, ← List.append_assoc, List.getLast?_append] at hr
      rw [List.concat_eq_append, List.getLastD_concat]
      simpa using hr

/-! ## Commands -/

section Commands

variable {host : MonitorHost} {c : Console}

def Terminal.reading (t : Terminal) : Bytes × Bool × ℕ := (t.input, t.failing, t.waits)

theorem folds_reading (host : MonitorHost) : Folds (some (shouldStop host)) (some (traceTo host))
    (fun c => c.2.reading) (fun t _ => t) := by
  refine ⟨fun c => rfl, fun one c h => ?_⟩
  rw [traceAttempt, if_pos (by omega)]
  rfl

theorem runMachine_reading (host : MonitorHost) (c : Console) (limit : BitVec 64) (trace : Bool) :
    (runMachine host c limit trace).terminal.reading = c.terminal.reading := by
  obtain ⟨rs, run, final, ⟨view, terminal⟩, heq, -, hreading⟩ :=
    machineRun_folds (folds_reading host) c.session.machine limit.toNat
      ({ c.session.toTraceView with trace := trace }, c.terminal)
  rw [List.foldl_fixed] at hreading
  unfold Riscv32.runMachine
  rw [heq]
  exact hreading

/-- The log goes on, or starts anew, and the input stays where it is. -/
def Stays (p : Program) (c c' : Console) : Prop :=
  (∃ rs, Logged p c'.session rs) ∧ c'.terminal.reading = c.terminal.reading

theorem Logged.put (h : Logged p c.session rs) (text : Bytes) : Stays p c (c.put text) :=
  ⟨⟨rs, h⟩, rfl⟩

theorem Logged.stop (h : Logged p c.session rs) : Stays p c (stopCommand c) :=
  ⟨⟨rs, h.retains.stop, h.invariant.stop, h.run, h.hasRecord, h.last⟩, rfl⟩

theorem Logged.reset (hp : machineLoadRejects p = false) (h : Logged p c.session rs) :
    Stays p c (resetCommand c) := by
  unfold resetCommand
  rw [h.retains.reset (memoryReady_of_accepted hp)]
  exact ⟨⟨[], logged_start hp rfl rfl⟩, rfl⟩

theorem Logged.where (h : Logged p c.session rs) (args : List CText) :
    Stays p c (whereCommand host c args) := by
  unfold whereCommand
  dsimp only
  split
  · exact ⟨⟨rs, h.retains, h.invariant, h.run, h.hasRecord, h.last⟩, rfl⟩
  · exact ⟨⟨rs, h.retains, h.invariant, h.run, h.hasRecord, h.last⟩, rfl⟩

theorem Logged.source (h : Logged p c.session rs) (args : List CText) :
    Stays p c (sourceCommand host c args) := by
  unfold sourceCommand
  dsimp only
  split
  · exact ⟨⟨rs, h.retains, h.invariant, h.run, h.hasRecord, h.last⟩, rfl⟩
  · exact ⟨⟨rs, h.retains, h.invariant, h.run, h.hasRecord, h.last⟩, rfl⟩

theorem Logged.runCommand (h : Logged p c.session rs) (stepping : Bool) (args : List CText) :
    Stays p c (runCommand host c stepping args) := by
  unfold Riscv32.runCommand
  dsimp only
  split
  · exact h.put _
  · obtain ⟨rs', h'⟩ := h.runMachine _ _
    exact ⟨⟨_, h'⟩, runMachine_reading host c _ _⟩

/-- Every inspection is shown or refused; none leaves the RAM. -/
theorem inspect_ok (monitor : Monitor) (h : memoryReady monitor.machine.memory = true)
    (command : CText) (args : List CText) :
    ∃ text, inspect monitor command args = .ok (monitor, text) := by
  cases hrange : inspectionRange (BitVec.ofNat 64 monitor.machine.memory.size) command args with
  | none =>
    refine ⟨invalidInspection, ?_⟩
    unfold inspect
    rw [hrange]
  | some range =>
    have ha := (inspectionRange_iff (memoryReady_size h) command args range.1 range.2).mp hrange
    exact ⟨_, inspect_accepted h ha⟩

theorem Logged.inspect (h : Logged p c.session rs) (command : CText) (args : List CText) :
    Meets (Stays p c) (fun _ => False) (inspectCommand c command args) := by
  obtain ⟨text, htext⟩ := inspect_ok ⟨c.session.machine, some c.session.debug⟩ h.retains.ready
    command args
  unfold inspectCommand
  rw [htext]
  exact h.put text

theorem Logged.dispatch (host : MonitorHost) (hp : machineLoadRejects p = false)
    (h : Logged p c.session rs) (args : List CText) : Meets (Stays p c) (fun _ => False) (dispatch host c args) := by
  unfold Riscv32.dispatch
  dsimp only
  refine meets_ite (fun _ => h.put _) fun _ => ?_
  refine meets_ite (fun _ => h.put _) fun _ => ?_
  refine meets_ite (fun _ => h.put _) fun _ => ?_
  refine meets_ite (fun _ => h.put _) fun _ => ?_
  refine meets_ite (fun _ => h.where args) fun _ => ?_
  refine meets_ite (fun _ => h.source args) fun _ => ?_
  refine meets_ite (fun _ => h.stop) fun _ => ?_
  refine meets_ite (fun _ => h.reset hp) fun _ => ?_
  refine meets_ite (fun _ => h.inspect _ args) fun _ => ?_
  exact meets_ite (fun _ => h.runCommand _ args) fun _ => h.put _

theorem Logged.obey (host : MonitorHost) (hp : machineLoadRejects p = false)
    (h : Logged p c.session rs) (args : List CText) : Meets (Sum.elim (Stays p c) fun r => r.1 = 0 ∧ Stays p c r.2)
      (fun _ => False) (obey host c args) := by
  unfold Riscv32.obey
  refine meets_ite (fun _ => ⟨⟨rs, h⟩, rfl⟩) fun _ => ?_
  refine meets_ite (fun _ => h.put _) fun _ => ?_
  refine meets_ite (fun _ => ⟨rfl, ⟨rs, h⟩, rfl⟩) fun _ => ?_
  obtain ⟨c', hc, hstays⟩ | ⟨e, -, hfalse⟩ := (h.dispatch host hp args).ok_or_reported
  · rw [hc]
    exact hstays
  · exact absurd hfalse id

end Commands

/-! ## Turns -/

theorem fgets_append (n : ℕ) (input : Bytes) : (fgets n input).1 ++ (fgets n input).2 = input := by
  induction n generalizing input with
  | zero => rfl
  | succ n ih =>
    cases input with
    | nil => rfl
    | cons ch rest =>
      rw [fgets]
      split_ifs
      · rfl
      · exact congrArg (ch :: ·) (ih rest)

structure Turned (p : Program) (host : MonitorHost) (c c' : Console) : Prop where
  logged : ∃ rs, Logged p c'.session rs
  failing : c'.terminal.failing = c.terminal.failing
  waits : c'.terminal.waits = c.terminal.waits + 1
  length_le : c'.terminal.input.length ≤ c.terminal.input.length
  length_lt : host.signal c.terminal.waits = none →
    c'.terminal.input.length < c.terminal.input.length

structure Left (p : Program) (c : Console) (result : ℕ × Console) : Prop where
  logged : ∃ rs, Logged p result.2.session rs
  status : result.1 = 0 ∨ result.1 = 2 ∧ c.terminal.failing = true

theorem awaitLine_session (host : MonitorHost) (t : Terminal) :
    (awaitLine host t).2.failing = t.failing ∧ (awaitLine host t).2.waits = t.waits + 1 ∧
      (awaitLine host t).2.input.length ≤ t.input.length ∧
      (host.signal t.waits = none → (awaitLine host t).1 ≠ .ended →
        (awaitLine host t).2.input.length < t.input.length) := by
  have happend := congrArg List.length (fgets_append (commandCapacity - 1) t.input)
  rw [List.length_append] at happend
  unfold awaitLine
  dsimp only
  cases host.signal t.waits with
  | some taken =>
    refine ⟨rfl, rfl, ?_, nofun⟩
    rw [List.length_drop]
    omega
  | none =>
    dsimp only
    generalize (fgets (commandCapacity - 1) t.input).1 = line at happend ⊢
    generalize (fgets (commandCapacity - 1) t.input).2 = rest at happend ⊢
    by_cases hend : (line.length < commandCapacity - 1 ∧ line.getLast? ≠ some 0x0A#8) ∧
        (line = [] ∨ t.failing = true)
    · rw [if_pos hend]
      exact ⟨rfl, rfl, Nat.zero_le _, fun _ h => absurd rfl h⟩
    · -- a line that is not the end has at least one byte
      have hpos : 0 < line.length := by
        rw [List.length_pos_iff]
        rintro rfl
        exact hend ⟨⟨by decide, nofun⟩, .inl rfl⟩
      rw [if_neg hend]
      split_ifs
      · have hdrain : (rest.dropWhile fun ch => ch ≠ 0x0A#8).length ≤ rest.length :=
          (List.dropWhile_suffix _).length_le
        refine ⟨rfl, rfl, ?_, fun _ _ => ?_⟩
        · rw [List.length_drop]
          omega
        · rw [List.length_drop]
          omega
      · refine ⟨rfl, rfl, ?_, fun _ _ => ?_⟩
        · change rest.length ≤ _
          omega
        · change rest.length < _
          omega

theorem Logged.turn (host : MonitorHost) {c : Console} (hp : machineLoadRejects p = false)
    (h : Logged p c.session rs) :
    Meets (Sum.elim (Turned p host c) (Left p c)) (fun _ => False) (interactiveTurn host c) := by
  obtain ⟨hfailing, hwaits, hle, hlt⟩ := awaitLine_session host (c.terminal.put (ascii "rv32> "))
  unfold interactiveTurn
  dsimp only
  generalize awaitLine host (c.terminal.put (ascii "rv32> ")) = r at hfailing hwaits hle hlt ⊢
  obtain ⟨awaited, t⟩ := r
  cases awaited with
  | interrupted => exact ⟨⟨rs, h⟩, hfailing, hwaits, hle, fun hs => hlt hs nofun⟩
  | ended =>
    refine ⟨⟨rs, h⟩, ?_⟩
    dsimp only
    split_ifs with hf
    · exact .inr ⟨rfl, hfailing.symm.trans hf⟩
    · exact .inl rfl
  | tooLong => exact ⟨⟨rs, h⟩, hfailing, hwaits, hle, fun hs => hlt hs nofun⟩
  | line text =>
    have hobey := Logged.obey (c := { c with terminal := t }) host hp h (splitArgs 5 text)
    refine hobey.imp fun result hr => ?_
    cases result with
    | inl c' =>
      obtain ⟨hlogged, hreading⟩ := hr
      obtain ⟨hinput, hfail, hwait⟩ : c'.terminal.input = t.input ∧ c'.terminal.failing = t.failing ∧
          c'.terminal.waits = t.waits := by
        simpa [Terminal.reading] using hreading
      refine ⟨hlogged, hfail.trans hfailing, hwait.trans hwaits, ?_, fun hs => ?_⟩ <;> rw [hinput]
      · exact hle
      · exact hlt hs nofun
    | inr r => exact ⟨hr.2.1, .inl hr.1⟩

/-! ## Sessions -/

/-- Every session ends: each turn takes a byte of the input or uses up a signal. -/
theorem session_ends (hp : machineLoadRejects p = false) (host : MonitorHost)
    (hs : s.machine = loadedMachine p) (hr : s.hasRecord = false) (t : Terminal) {n : ℕ}
    (hsignal : ∀ k ≥ n, host.signal k = none) {fuel : ℕ} (hfuel : t.input.length + n < fuel) :
    ∃ status c, interactive host fuel ⟨s, t⟩ = .ok (status, c) ∧
      (status = 0 ∨ status = 2 ∧ t.failing = true) ∧ ∃ rs, Logged p c.session rs := by
  have hloop : Meets (fun result : ℕ × Console => (result.1 = 0 ∨ result.1 = 2 ∧ t.failing = true) ∧
      ∃ rs, Logged p result.2.session rs) (fun _ => False) (interactive host fuel ⟨s, t⟩) := by
    refine meets_loop (I := fun c => (∃ rs, Logged p c.session rs) ∧
        c.terminal.failing = t.failing)
      (fun c => c.terminal.input.length + (n - c.terminal.waits)) ?_ ⟨⟨[], logged_start hp hs hr⟩, rfl⟩ ?_
    · rintro c ⟨⟨rs, h⟩, hfailing⟩
      refine (h.turn host hp).imp fun result hresult => ?_
      cases result with
      | inl c' =>
        refine ⟨⟨hresult.logged, hresult.failing.trans hfailing⟩, ?_⟩
        have hle := hresult.length_le
        have hlt := hresult.length_lt
        have hwaits := hresult.waits
        by_cases hnone : host.signal c.terminal.waits = none
        · have hless := hlt hnone
          omega
        · have hfew : c.terminal.waits < n := by
            by_contra hge
            exact hnone (hsignal _ (by omega))
          omega
      | inr r =>
        rw [← hfailing]
        exact ⟨hresult.status, hresult.logged⟩
    · change t.input.length + (n - t.waits) < fuel
      omega
  obtain ⟨⟨status, c⟩, hok, hstatus, hlogged⟩ | ⟨e, -, hfalse⟩ := hloop.ok_or_reported
  · exact ⟨status, c, hok, hstatus, hlogged⟩
  · exact absurd hfalse id

end Logged

end Riscv32
