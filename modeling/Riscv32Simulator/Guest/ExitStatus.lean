import Riscv32Simulator.Guest.Start
import Riscv32Simulator.Monitor.Batch

/-! What `main` returns is the exit status of the monitor that runs the program. -/

namespace Riscv32
open Format LabelledRun
open Rv32i (State Word)

/-- A batch run of a program that starts in `_start`, in an image of any format, gives the low byte
of what its `main` returns as its status, if it is not interrupted and the limit is not met. -/
theorem main_gives_exit_status {host : MainHost} {argv : List CText} {o : Options} {p : Program}
    {info : DebugInfo} (hstarts : Starts host argv o p info) (hbatch : o.runBatch = true)
    {y : StartSymbols} (hboot : Booting p.memory.size (imageState p) y) {pcs : List Word} {t : State}
    (hmain : Run (Rv32i.traced p.memory.size) (entered (imageState p) y) pcs t)
    (hreturned : Returned (imageState p) t) (hlimit : startSteps y + pcs.length + 1 < o.limit.toNat)
    (hquiet : ∀ k < startSteps y + pcs.length + 2, host.interrupted k = false) (fuel : ℕ) :
    ∃ out, monitorMain host fuel argv = .ok { status := (t.reg 10).toNat % 256, out := out } := by
  obtain ⟨hp, hpos, hmonitor⟩ := hstarts.run fuel
  have hsize := ((memorySizeValid_iff _).mp (memoryReady_size (memoryReady_of_accepted hp))).2.1
  obtain ⟨qs, u, hqs, hrun, hcalls, hcode⟩ := hboot.calls (by omega) hmain hreturned
  obtain ⟨n, hn⟩ : ∃ n, o.limit.toNat = qs.length + (n + 1) := ⟨o.limit.toNat - qs.length - 1, by omega⟩
  have hending : ending p.memory.size host.interrupted o.limit.toNat 0 (imageState p) =
      .exit (t.reg 10) := by
    rw [hn, ending_run hrun (n + 1) fun k hk => hquiet (0 + k) (by omega),
      ending_exit hcalls n (hquiet _ (by omega)), hcode]
  obtain ⟨rs, reason, final, -, hstatus, hbatchRun⟩ := runMonitor_batch host fuel hbatch hpos info hp
  rw [hmonitor, hbatchRun, hstatus, hending]
  exact ⟨_, rfl⟩

def returnsSevenHost : MainHost :=
  { sevenHost with opens := fun _ => .ok { rest := returnsSevenMachine.memory.contents } }

def returnsSevenArguments : List CText :=
  [ascii "riscv32-studio", ascii "--bin", ascii "seven.bin", ascii "--load-address", ascii "0x0",
    ascii "--entry", ascii "0", ascii "--ram", ascii "80B", ascii "--run"]

def returnsSevenProgram : Program := binaryProgram 80 0 0 returnsSevenMachine.memory.contents

def returnsSevenOptions : Options where
  path := some (ascii "seven.bin")
  format := .binary
  ramSize := 80
  entrySet := true
  addressSet := true
  runBatch := true
  color := false

theorem memory_returnsSeven : returnsSevenProgram.memory = returnsSevenMachine.memory :=
  Memory.splice_contents (Memory.isSome_zeroed 80) rfl rfl

theorem imageState_returnsSeven : imageState returnsSevenProgram = returnsSevenStart := by
  unfold imageState returnsSevenStart
  rw [memory_returnsSeven]
  rfl

theorem binaryAccepted_returnsSeven :
    BinaryAccepted 80 0 0 returnsSevenMachine.memory.contents := by
  have hlength : returnsSevenMachine.memory.contents.length = 80 := Memory.length_contents rfl
  constructor
  · decide
  · rw [hlength]
    decide
  · rw [hlength]
    decide

theorem starts_returnsSeven :
    Starts returnsSevenHost returnsSevenArguments returnsSevenOptions returnsSevenProgram {} := by
  have hload : programReadBinary { rest := returnsSevenMachine.memory.contents } 80 0 0
      (fun _ => true) true = .ok returnsSevenProgram := by
    rcases programReadBinary_eq returnsSevenMachine.memory.contents 80 0 0 with ⟨-, h⟩ | ⟨h, -⟩
    · exact h
    · exact absurd binaryAccepted_returnsSeven h
  have hread : readOptions false (returnsSevenArguments.drop 1) =
      .ok (returnsSevenOptions, ascii "seven.bin") := by
    decide +kernel
  exact ⟨ascii "seven.bin", hread, ⟨_, rfl, hload⟩, rfl, ⟨none, rfl⟩, ⟨rfl, rfl⟩, rfl⟩

theorem main_gives_exit_status_seven :
    ∃ out, monitorMain returnsSevenHost 0 returnsSevenArguments = .ok { status := 7, out := out } := by
  have hseven : (returnedSeven.reg 10).toNat % 256 = 7 := by
    simp only [returnedSeven, Function.update_self]
    rfl
  have hlimit : startSteps returnsSeven + [68#32, 72#32].length + 1 < returnsSevenOptions.limit.toNat := by
    decide
  have hboot : Booting 80 (imageState returnsSevenProgram) returnsSeven := by
    rw [imageState_returnsSeven]
    exact booting_returnsSeven
  have hmain : Run (Rv32i.traced 80) (entered (imageState returnsSevenProgram) returnsSeven)
      [68#32, 72#32] returnedSeven := by
    rw [imageState_returnsSeven]
    exact run_returnsSeven
  have hreturned : Returned (imageState returnsSevenProgram) returnedSeven := by
    rw [imageState_returnsSeven]
    exact returned_returnsSeven
  rw [← hseven]
  exact main_gives_exit_status starts_returnsSeven rfl hboot hmain hreturned hlimit
    (fun _ _ => rfl) 0

end Riscv32
