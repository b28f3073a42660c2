import Riscv32Simulator.Control.Callbacks
import Riscv32Simulator.Control.Environment
import Riscv32Simulator.Loading.Runnable
import Riscv32Simulator.Monitor.Options
import Riscv32Simulator.Monitor.Session

/-! From the command line to the exit status: what is run, how it ends, and what is printed. -/

namespace Riscv32
open Checked Format LabelledRun
open Rv32i (State)

/-! ## Statuses -/

def Ending.status : Ending → ℕ
  | .exit code => code.toNat % 256
  | .trap => 1
  | .limit => 124
  | .interrupt => 130

theorem batchStatus_ending {e : Ending} {reason : MachineStop} {exitCode : BitVec 32}
    (hreason : reason = e.reason) (hcode : ∀ code, e = .exit code → exitCode = code) :
    batchStatus reason exitCode = e.status := by
  subst hreason
  cases e with
  | exit code =>
    rw [hcode code rfl, Ending.reason, batchStatus, if_pos rfl, BitVec.toNat_and]
    exact Nat.and_two_pow_sub_one_eq_mod _ 8
  | trap => rfl
  | limit => rfl
  | interrupt => rfl

theorem watches (host : MonitorHost) : Watches (some (shouldStop host)) (some (traceTo host))
    host.interrupted fun c => c.2.looks := by
  refine ⟨fun c => rfl, fun c => rfl, fun one c => ?_⟩
  rw [traceAttempt]
  split_ifs <;> rfl

/-- The hart at the entry of a program. -/
def imageState (p : Program) : State where
  reg _ := 0
  pc := p.entry
  retired := 0
  mem := p.memory.at

theorem mirrors_loadedMachine {p : Program} (h : machineLoadRejects p = false) :
    Mirrors p.memory.size (loadedMachine p) (imageState p) :=
  ⟨⟨rfl, rfl⟩, memoryReady_of_accepted h, rfl, rfl⟩

/-! ## Traces -/

/-- What is printed for an attempt: its source where that is not the one printed before, and its line. -/
def attemptText (files : SourceFiles) (info : DebugInfo) (color : Bool)
    (p : CpuStepRecord × Option (Option DebugLine)) : Bytes :=
  (if p.2.any (sameSource (debugInfoLookup info p.1.pcBefore)) then []
    else sourceViewLocation files info p.1.pcBefore true) ++ traceLine color p.1

def traceText (files : SourceFiles) (info : DebugInfo) (color : Bool) (rs : List CpuStepRecord) : Bytes :=
  (rs.zip (none :: rs.map fun r => some (debugInfoLookup info r.pcBefore))).flatMap
    (attemptText files info color)

def TraceView.shown (view : TraceView) : Option (Option DebugLine) :=
  if view.sourceSeen then some view.lastSource else none

theorem traceStep_traced (files : SourceFiles) (r : CpuStepRecord) {view : TraceView}
    (h : view.trace = true) : (traceStep files r view).2 =
      attemptText files view.debug view.color (r, view.shown) := by
  unfold traceStep attemptText TraceView.shown
  dsimp only
  rw [h, if_neg (by decide)]
  dsimp only
  cases view.sourceSeen with
  | false => rfl
  | true =>
    cases hsame : sameSource (debugInfoLookup view.debug r.pcBefore) view.lastSource <;> simp [hsame]

theorem traceStep_keeps (files : SourceFiles) (r : CpuStepRecord) {view : TraceView}
    (h : view.trace = true) : (traceStep files r view).1.debug = view.debug ∧
      (traceStep files r view).1.color = view.color ∧ (traceStep files r view).1.trace = true ∧
      (traceStep files r view).1.shown = some (debugInfoLookup view.debug r.pcBefore) := by
  unfold traceStep
  dsimp only
  rw [h, if_neg (by decide)]
  exact ⟨rfl, rfl, rfl, rfl⟩

def traceFold (files : SourceFiles) (p : TraceView × Bytes) (r : CpuStepRecord) : TraceView × Bytes :=
  ((traceStep files r p.1).1, p.2 ++ (traceStep files r p.1).2)

theorem foldl_traced (files : SourceFiles) (rs : List CpuStepRecord) {view : TraceView}
    (h : view.trace = true) (out : Bytes) : (rs.foldl (traceFold files) (view, out)).2 = out ++
      (rs.zip (view.shown :: rs.map fun r => some (debugInfoLookup view.debug r.pcBefore))).flatMap
        (attemptText files view.debug view.color) := by
  induction rs generalizing view out with
  | nil => exact (List.append_nil _).symm
  | cons r rs ih =>
    obtain ⟨hdebug, hcolor, htrace, hshown⟩ := traceStep_keeps files r h
    rw [List.foldl_cons, traceFold, ih htrace, hdebug, hcolor, hshown, traceStep_traced files r h,
      List.map_cons, List.zip_cons_cons, List.flatMap_cons, List.append_assoc]

theorem foldl_untraced (files : SourceFiles) (rs : List CpuStepRecord) {view : TraceView}
    (h : view.trace = false) (out : Bytes) : (rs.foldl (traceFold files) (view, out)).2 = out := by
  induction rs generalizing view out with
  | nil => rfl
  | cons r rs ih =>
    have hstep : traceStep files r view = ({ view with last := r, hasRecord := true }, []) := by
      unfold traceStep
      dsimp only
      rw [h, if_pos rfl]
    rw [List.foldl_cons, traceFold, hstep, List.append_nil]
    refine ih ?_ out
    exact h

theorem folds_output (host : MonitorHost) : Folds (some (shouldStop host)) (some (traceTo host))
    (fun c => (c.1, c.2.output)) (traceFold host.files) := by
  refine ⟨fun c => rfl, fun one c h => ?_⟩
  rw [traceAttempt, if_pos (by omega)]
  rfl

/-! ## The batch run -/

def runText (host : MonitorHost) (view : TraceView) (rs : List CpuStepRecord) : Bytes :=
  if view.trace then traceText host.files view.debug view.color rs else []

theorem foldl_traceFold (host : MonitorHost) (rs : List CpuStepRecord) {view : TraceView}
    (hseen : view.sourceSeen = false) (out : Bytes) :
    (rs.foldl (traceFold host.files) (view, out)).2 = out ++ runText host view rs := by
  unfold runText
  cases h : view.trace with
  | false => rw [foldl_untraced host.files rs h, if_neg Bool.false_ne_true, List.append_nil]
  | true =>
    rw [foldl_traced host.files rs h, if_pos rfl, TraceView.shown, hseen, if_neg Bool.false_ne_true]
    rfl

/-- A batch run ends as the hart does, and prints the attempts that it made and the report. -/
theorem batch_eq (host : MonitorHost) {c : Console} {p : Program}
    (hp : machineLoadRejects p = false) (hm : c.session.machine = loadedMachine p)
    (hlimit : c.session.limit ≠ 0) (hseen : c.session.sourceSeen = false) (hlooks : c.terminal.looks = 0) :
    ∃ rs reason final, RunsTo c.session.limit.toNat (loadedMachine p) rs reason final ∧
      batchStatus reason final.exitCode =
        (ending p.memory.size host.interrupted c.session.limit.toNat 0 (imageState p)).status ∧
      (batch host c).1 = batchStatus reason final.exitCode ∧
      (batch host c).2.terminal.output = c.terminal.output ++
        runText host c.session.toTraceView rs ++ reportStop (MachineRun.through {} rs reason) final := by
  have hactive : active (loadedMachine p) := ⟨rfl, rfl⟩
  have hpos : c.session.limit.toNat ≠ 0 := fun h => hlimit (BitVec.eq_of_toNat_eq h)
  obtain ⟨hreason, hcode⟩ := machineRunLoop_ending (watches host) c.session.limit.toNat {}
    (mirrors_loadedMachine hp) (c.session.toTraceView, c.terminal)
  obtain ⟨rs, reason, final, ⟨view, t⟩, hruns, hloop, hpart⟩ := machineRunLoop_folds (folds_output host)
    c.session.limit.toNat {} hactive (c.session.toTraceView, c.terminal)
  rw [hloop] at hreason hcode
  dsimp only at hreason hcode
  rw [hlooks] at hreason hcode
  have hout : t.output = c.terminal.output ++ runText host c.session.toTraceView rs :=
    (congrArg Prod.snd hpart).trans (foldl_traceFold host rs hseen _)
  have hbatch : batch host c = (batchStatus reason final.exitCode,
      { session := { toTraceView := view, machine := final, limit := c.session.limit }
        terminal := t.put (reportStop (MachineRun.through {} rs reason) final) }) := by
    unfold batch
    rw [hm, machineRun_active _ _ hactive hpos, hloop]
    rfl
  rw [hbatch]
  refine ⟨rs, reason, final, hruns, batchStatus_ending hreason hcode, rfl, ?_⟩
  rw [← hout]
  rfl

/-! ## From the command line to the run -/

/-- The input is loaded, and the host grants what is asked of it. -/
structure Opens (host : MainHost) (o : Options) (path : CText) (p : Program) (info : DebugInfo) :
    Prop where
  loaded : ∃ input, host.opens path = .ok input ∧ loadProgram host o input = .ok p
  closed : host.closes = true
  debug : ∃ error, debugInfoRead host.debug p {} = (true, error, info)
  granted : host.calloc₁ = true ∧ host.calloc₂ = true
  handled : host.handles = true

def Starts (host : MainHost) (argv : List CText) (o : Options) (p : Program) (info : DebugInfo) : Prop :=
  ∃ path, readOptions host.isatty (argv.drop 1) = .ok (o, path) ∧ Opens host o path p info

theorem loadProgram_cases (host : MainHost) (o : Options) (input : Input) :
    (∃ p, loadProgram host o input = .ok p ∧ Loads p) ∨
      ∃ e, loadProgram host o input = .error (.reported e) := by
  unfold loadProgram
  cases o.format with
  | words =>
    dsimp only
    cases h : programReadWords input o.ramSize (o.loadAddress.setWidth 32) (o.entry.setWidth 32)
        host.calloc with
    | ok p => exact .inl ⟨p, rfl, .words h⟩
    | error e => exact .inr ⟨e, rfl⟩
  | elf =>
    rcases (meets_programReadElf input o.ramSize host.malloc host.calloc).ok_or_reported with
      ⟨p, hp, -⟩ | ⟨e, he, -⟩
    · exact .inl ⟨p, hp, .elf hp⟩
    · exact .inr ⟨e, he⟩
  | binary =>
    rcases (meets_programReadBinary input o.ramSize (o.loadAddress.setWidth 32)
        (o.entry.setWidth 32) host.malloc host.calloc).ok_or_reported with ⟨p, hp, -⟩ | ⟨e, he, -⟩
    · exact .inl ⟨p, hp, .binary hp⟩
    · exact .inr ⟨e, he⟩

theorem Opens.accepted {host : MainHost} {o : Options} {path : CText} {p : Program}
    {info : DebugInfo} (h : Opens host o path p info) : machineLoadRejects p = false := by
  obtain ⟨input, -, hload⟩ := h.loaded
  rcases loadProgram_cases host o input with ⟨q, hq, hloads⟩ | ⟨e, he⟩
  · obtain rfl := Except.ok.inj (hload.symm.trans hq)
    exact hloads.runnable.accepted
  · cases hload.symm.trans he

theorem Opens.program {host : MainHost} {o : Options} {path : CText} {p q : Program} {info : DebugInfo}
    {input : Input} (h : Opens host o path q info) (hopen : host.opens path = .ok input)
    (hload : loadProgram host o input = .ok p) : q = p := by
  obtain ⟨input', hinput, hq⟩ := h.loaded
  obtain rfl := Except.ok.inj (hopen.symm.trans hinput)
  exact Except.ok.inj (hq.symm.trans hload)

theorem Opens.unique {host : MainHost} {o : Options} {path : CText} {p q : Program}
    {info info' : DebugInfo} (h : Opens host o path p info) (h' : Opens host o path q info') :
    p = q ∧ info = info' := by
  obtain ⟨input, hopen, hload⟩ := h'.loaded
  obtain rfl := h.program hopen hload
  obtain ⟨error, hdebug⟩ := h.debug
  obtain ⟨error', hdebug'⟩ := h'.debug
  obtain ⟨-, heq⟩ := Prod.mk.inj (hdebug.symm.trans hdebug')
  exact ⟨rfl, (Prod.mk.inj heq).2⟩

theorem path_message_ne_nil (path : CText) (fs : List Directive) (vs : List ℤ) :
    print (.text path :: .text (ascii ": ") :: fs) vs ≠ [] :=
  List.append_ne_nil_of_right_ne_nil _ (print_ne_nil (ascii_ne_nil (by decide)) fs vs)

theorem inputMessage_ne_nil (path : CText) (line : ℕ) (message : Bytes) :
    inputMessage path line message ≠ [] :=
  List.append_ne_nil_of_right_ne_nil _ (print_ne_nil (ascii_ne_nil (by decide)) _ _)

def OpenedOrRefused (host : MainHost) (fuel : ℕ) (o : Options) (path : CText) : Prop :=
  (∃ e, openAndRun host fuel o path = .ok e ∧ Refused e ∧ ∀ p info, ¬ Opens host o path p info) ∨
    ∃ p info, Opens host o path p info ∧
      openAndRun host fuel o path = runMonitor host fuel o info (loadedMachine p)

theorem openAndRun_loaded {host : MainHost} {o : Options} {path : CText} {input : Input} {p : Program}
    (hopen : host.opens path = .ok input) (hload : loadProgram host o input = .ok p) (hloads : Loads p)
    (fuel : ℕ) : OpenedOrRefused host fuel o path := by
  unfold OpenedOrRefused openAndRun
  rw [hopen]
  dsimp only
  rw [hload]
  dsimp only
  cases hclose : host.closes with
  | false =>
    rw [if_pos rfl]
    exact .inl ⟨_, rfl, refused (inputMessage_ne_nil _ _ _), fun q info h =>
      Bool.false_ne_true (hclose.symm.trans h.closed)⟩
  | true =>
    rw [if_neg (by decide)]
    rcases hdebug : debugInfoRead host.debug p {} with ⟨ok, error, info⟩
    cases ok with
    | false =>
      refine .inl ⟨_, rfl, refused (path_message_ne_nil _ _ _), fun q info' h => ?_⟩
      obtain rfl := h.program hopen hload
      obtain ⟨error', herror⟩ := h.debug
      cases hdebug.symm.trans herror
    | true =>
      dsimp only
      rw [machineLoad_eq]
      by_cases hgranted : host.calloc₁ = true ∧ host.calloc₂ = true
      · rw [if_pos ⟨hloads.runnable.accepted, hgranted⟩]
        dsimp only
        cases hhandles : host.handles with
        | false =>
          rw [if_pos rfl]
          exact .inl ⟨_, rfl, refused (ascii_ne_nil (by decide)), fun q info h =>
            Bool.false_ne_true (hhandles.symm.trans h.handled)⟩
        | true =>
          rw [if_neg (by decide)]
          exact .inr ⟨p, info, ⟨⟨input, hopen, hload⟩, hclose, ⟨error, hdebug⟩, hgranted,
            hhandles⟩, rfl⟩
      · rw [if_neg fun h => hgranted h.2]
        exact .inl ⟨_, rfl, refused (ascii_ne_nil (by decide)), fun q info h =>
          hgranted h.granted⟩

theorem openAndRun_cases (host : MainHost) (fuel : ℕ) (o : Options) (path : CText) :
    OpenedOrRefused host fuel o path := by
  cases hopen : host.opens path with
  | error text =>
    unfold OpenedOrRefused openAndRun
    rw [hopen]
    refine .inl ⟨_, rfl, refused (print_ne_nil (ascii_ne_nil (by decide)) _ _), fun p info h => ?_⟩
    obtain ⟨input, hinput, -⟩ := h.loaded
    cases hopen.symm.trans hinput
  | ok input =>
    rcases loadProgram_cases host o input with ⟨p, hload, hloads⟩ | ⟨e, hload⟩
    · exact openAndRun_loaded hopen hload hloads fuel
    · unfold OpenedOrRefused openAndRun
      rw [hopen]
      dsimp only
      rw [hload]
      refine .inl ⟨_, rfl, refused (inputMessage_ne_nil _ _ _), fun q info h => ?_⟩
      obtain ⟨input', hinput, hq⟩ := h.loaded
      obtain rfl := Except.ok.inj (hopen.symm.trans hinput)
      cases hq.symm.trans hload

theorem monitorMain_error {host : MainHost} {argv : List CText} {e : Exit}
    (h : readOptions host.isatty (argv.drop 1) = .error e) (fuel : ℕ) :
    monitorMain host fuel argv = .ok e := by
  unfold readOptions at h
  unfold monitorMain
  cases hparse : parseOptions (argv.drop 1) { color := host.isatty } with
  | error e' =>
    rw [hparse] at h
    exact congrArg Except.ok (Except.error.inj h)
  | ok o =>
    rw [hparse] at h
    have hcheck : checkOptions o = .error e := h
    dsimp only
    rw [hcheck]

theorem monitorMain_ok {host : MainHost} {argv : List CText} {o : Options} {path : CText}
    (h : readOptions host.isatty (argv.drop 1) = .ok (o, path)) (fuel : ℕ) :
    monitorMain host fuel argv = openAndRun host fuel o path := by
  unfold readOptions at h
  unfold monitorMain
  cases hparse : parseOptions (argv.drop 1) { color := host.isatty } with
  | error e =>
    rw [hparse] at h
    cases h
  | ok o' =>
    rw [hparse] at h
    have hcheck : checkOptions o' = .ok (o, path) := h
    dsimp only
    rw [hcheck]

theorem Starts.run {host : MainHost} {argv : List CText} {o : Options} {p : Program}
    {info : DebugInfo} (h : Starts host argv o p info) (fuel : ℕ) :
    machineLoadRejects p = false ∧ o.limit ≠ 0 ∧
      monitorMain host fuel argv = runMonitor host fuel o info (loadedMachine p) := by
  obtain ⟨path, hread, hopens⟩ := h
  refine ⟨hopens.accepted, readOptions_limit hread, ?_⟩
  rcases openAndRun_cases host fuel o path with ⟨e, -, -, hno⟩ | ⟨q, info', hopens', hmain⟩
  · exact absurd hopens (hno p info)
  · obtain ⟨rfl, rfl⟩ := hopens.unique hopens'
    rw [monitorMain_ok hread, hmain]

theorem monitorMain_cases (host : MainHost) (fuel : ℕ) (argv : List CText) :
    (∃ e, monitorMain host fuel argv = .ok e ∧ (e = helpExit ∨ Refused e) ∧
      ∀ o p info, ¬ Starts host argv o p info) ∨
    ∃ o p info, Starts host argv o p info := by
  cases hread : readOptions host.isatty (argv.drop 1) with
  | error e =>
    refine .inl ⟨e, monitorMain_error hread fuel, readOptions_error hread, ?_⟩
    rintro o p info ⟨path, hok, -⟩
    cases hread.symm.trans hok
  | ok r =>
    obtain ⟨o, path⟩ := r
    rw [monitorMain_ok hread fuel]
    rcases openAndRun_cases host fuel o path with ⟨e, he, hrefused, hno⟩ | ⟨p, info, hopens, -⟩
    · refine .inl ⟨e, he, .inr hrefused, ?_⟩
      rintro o' p info ⟨path', hok, hopens⟩
      obtain ⟨rfl, rfl⟩ := Prod.mk.inj (Except.ok.inj (hread.symm.trans hok))
      exact hno p info hopens
    · exact .inr ⟨o, p, info, path, hread, hopens⟩

/-! ## Runs -/

theorem runMonitor_batch (host : MainHost) (fuel : ℕ) {o : Options} (hbatch : o.runBatch = true)
    (hlimit : o.limit ≠ 0) (info : DebugInfo) {p : Program} (hp : machineLoadRejects p = false) :
    ∃ rs reason final, RunsTo o.limit.toNat (loadedMachine p) rs reason final ∧
      batchStatus reason final.exitCode =
        (ending p.memory.size host.interrupted o.limit.toNat 0 (imageState p)).status ∧
      runMonitor host fuel o info (loadedMachine p) = .ok
        { status := batchStatus reason final.exitCode
          out := (if o.trace then traceText host.files info o.color rs else []) ++
            reportStop (MachineRun.through {} rs reason) final } := by
  obtain ⟨rs, reason, final, hruns, hending, hstatus, hout⟩ := batch_eq host.toMonitorHost (p := p)
    (c := {
      session := {
        debug := info
        trace := o.trace
        color := o.color
        machine := loadedMachine p
        limit := o.limit }
      terminal := { input := host.stdin.rest, failing := host.stdin.failing } }) hp rfl hlimit rfl rfl
  refine ⟨rs, reason, final, hruns, hending, ?_⟩
  unfold runMonitor
  dsimp only
  rw [if_pos hbatch, ← hstatus]
  refine congrArg Except.ok ?_
  rw [Exit.mk.injEq]
  exact ⟨rfl, hout, rfl⟩

theorem runMonitor_interactive (host : MainHost) {fuel n : ℕ} {o : Options}
    (hbatch : o.runBatch = false) (info : DebugInfo) {p : Program}
    (hp : machineLoadRejects p = false) (hsignal : ∀ k ≥ n, host.signal k = none)
    (hfuel : host.stdin.rest.length + n < fuel) :
    ∃ e, runMonitor host fuel o info (loadedMachine p) = .ok e ∧ e.err = [] ∧
      (e.status = 0 ∨ e.status = 2 ∧ host.stdin.failing = true) := by
  obtain ⟨status, c, hok, hstatus, -⟩ := session_ends hp host.toMonitorHost
    (s := {
      debug := info
      trace := o.trace
      color := o.color
      machine := loadedMachine p
      limit := o.limit }) rfl rfl
    { input := host.stdin.rest, failing := host.stdin.failing } hsignal hfuel
  refine ⟨{ status := status, out := c.terminal.output }, ?_, rfl, hstatus⟩
  unfold runMonitor
  dsimp only
  rw [if_neg (Bool.eq_false_iff.mp hbatch), hok]

/-- Every call of the monitor ends. Nothing is run where the command line, the input or the host
refuses it, and then the status is 2 with a message or help is shown. Otherwise a batch run has the
status of the RV32I hart that starts at the entry of the image with zero registers, and an
interactive one leaves with 0, or with 2 where the input fails. -/
theorem monitor_main_status (host : MainHost) (argv : List CText) {n fuel : ℕ}
    (hsignal : ∀ k ≥ n, host.signal k = none) (hfuel : host.stdin.rest.length + n < fuel) :
    ∃ e, monitorMain host fuel argv = .ok e ∧
      ((e = helpExit ∨ Refused e) ∧ (∀ o p info, ¬ Starts host argv o p info) ∨
      ∃ o p info, Starts host argv o p info ∧ e.err = [] ∧
        if o.runBatch then e.status =
          (ending p.memory.size host.interrupted o.limit.toNat 0 (imageState p)).status
        else e.status = 0 ∨ e.status = 2 ∧ host.stdin.failing = true) := by
  rcases monitorMain_cases host fuel argv with
    ⟨e, he, hrefused, hno⟩ | ⟨o, p, info, hstarts⟩
  · exact ⟨e, he, .inl ⟨hrefused, hno⟩⟩
  · obtain ⟨hp, hlimit, hmain⟩ := hstarts.run fuel
    rw [hmain]
    cases hbatch : o.runBatch with
    | true =>
      obtain ⟨rs, reason, final, -, hending, hrun⟩ := runMonitor_batch host fuel hbatch hlimit info hp
      refine ⟨_, hrun, .inr ⟨o, p, info, hstarts, rfl, ?_⟩⟩
      rw [hbatch, if_pos rfl]
      exact hending
    | false =>
      obtain ⟨e, hrun, herr, hstatus⟩ := runMonitor_interactive host hbatch info hp hsignal hfuel
      refine ⟨e, hrun, .inr ⟨o, p, info, hstarts, herr, ?_⟩⟩
      rw [hbatch, if_neg Bool.false_ne_true]
      exact hstatus

/-- A host that grants everything and has one file: `addi a0, zero, 7`, `addi a7, zero, 93`, `ecall`. -/
def sevenHost : MainHost where
  files _ := .error []
  interrupted _ := false
  signal _ := none
  isatty := false
  opens _ := .ok { rest := ascii "00700513\n05d00893\n73\n" }
  closes := true
  malloc _ := true
  calloc := true
  debug := {
    malloc := fun _ => true
    elfVersion := true
    elfMemory := fun _ => none
    qsortLines := id
    qsortSymbols := id }
  calloc₁ := true
  calloc₂ := true
  handles := true
  stdin := { rest := [] }

def sevenArguments : List CText :=
  [ascii "riscv32-studio", ascii "--program", ascii "seven.words", ascii "--ram", ascii "16B",
    ascii "--run", ascii "--trace"]

theorem sevenStatus {e : Exit} (h : monitorMain sevenHost 1 sevenArguments = .ok e) :
    e.status = 7 ∧ ¬ (e = helpExit ∨ Refused e) := by
  have heq : (monitorMain sevenHost 1 sevenArguments).map (·.status) = .ok 7 := by decide +kernel
  rw [h] at heq
  have hseven : e.status = 7 := Except.ok.inj heq
  refine ⟨hseven, ?_⟩
  rintro (rfl | hrefused)
  · cases hseven
  · cases hseven.symm.trans hrefused.status

theorem sevenBatch {o : Options} {p : Program} {info : DebugInfo}
    (h : Starts sevenHost sevenArguments o p info) : o.runBatch = true ∧ o.limit.toNat = 100000 := by
  obtain ⟨path, hread, -⟩ := h
  have heq : readOptions false (sevenArguments.drop 1) = .ok ({
      path := some (ascii "seven.words")
      ramSize := 16
      runBatch := true
      trace := true
      color := false }, ascii "seven.words") := rfl
  obtain ⟨rfl, -⟩ := Prod.mk.inj (Except.ok.inj (heq.symm.trans hread))
  exact ⟨rfl, rfl⟩

theorem monitor_main_status_seven : ∃ o p info, Starts sevenHost sevenArguments o p info ∧
    (ending p.memory.size (fun _ => false) 100000 0 (imageState p)).status = 7 := by
  have hfuel : sevenHost.stdin.rest.length + 0 < 1 := by decide
  obtain ⟨e, he, ⟨hnot, -⟩ | ⟨o, p, info, hstarts, -, hstatus⟩⟩ :=
    monitor_main_status sevenHost sevenArguments (fun _ _ => rfl) hfuel
  · exact absurd hnot (sevenStatus he).2
  · obtain ⟨hbatch, hlimit⟩ := sevenBatch hstarts
    rw [hbatch, if_pos rfl, hlimit] at hstatus
    exact ⟨o, p, info, hstarts, hstatus.symm.trans (sevenStatus he).1⟩

end Riscv32
