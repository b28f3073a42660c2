import Riscv32Simulator.Source.Disassembly
import Riscv32Simulator.Source.Words

/-! `monitor.c`: the help texts, and the help on one topic. -/

namespace Riscv32
open Format

def usageText : Bytes :=
  ascii "RISC-V Studio - RV32I teaching monitor\n" ++
    ascii "Usage: riscv32-studio (--program FILE | --elf FILE | --bin FILE) [options]\n" ++
    ascii "  --program FILE     Text words: one 32-bit hex word per line, # comments\n" ++
    ascii "  --elf FILE         ELF32 RV32I/ILP32 executable, symbols, and DWARF source mapping\n" ++
    ascii "  --bin FILE         Raw bytes; requires --load-address AND --entry\n" ++
    ascii "  --ram SIZE         RAM size with B, KiB, or MiB suffix (default: 64KiB)\n" ++
    ascii "                     Range: 4B through 256MiB, multiples of 4 bytes\n" ++
    ascii "  --run              Run in batch mode; otherwise open the monitor\n" ++
    ascii "  --trace            Show each instruction and its effects\n" ++
    ascii "  --max-steps N      Maximum attempts per run (default: 100000)\n" ++
    ascii "  --load-address N   First instruction address (default: 0)\n" ++
    ascii "  --entry N          Initial PC (default: load address)\n" ++
    ascii "  --color            Highlight changes with ANSI colors\n" ++
    ascii "  --no-color         Disable colors (automatic on terminals by default)\n" ++
    ascii "  --help             Show this help\n" ++
    ascii "Numbers are decimal or 0x-prefixed hexadecimal; negative values are invalid.\n" ++
    ascii "RAM requires an explicit case-sensitive unit, e.g. 65536B, 64KiB, or 1MiB.\n" ++
    ascii "Commands: step [N], run [N], stop, reset, regs, mem ADDRESS [BYTES],\n" ++
    ascii "          disasm ADDRESS [COUNT], where [ADDRESS], sources, source [LINE] [FILE_INDEX],\n" ++
    ascii "          symbols [NAME], help [formats|runtime|source|MNEMONIC], quit\n" ++
    ascii "Ctrl-C interrupts execution at an instruction boundary.\n" ++
    ascii "Environment: a7=93 + ECALL exits with a0. EBREAK pauses at its instruction.\n" ++
    ascii "Batch status: exit a0 & 255; trap=1; input error=2; limit=124; Ctrl-C=130.\n" ++
    ascii "Examples:\n" ++
    ascii "  ./build/debug/riscv32-studio --program demos/sum.words --run --trace\n" ++
    ascii "  ./build/debug/riscv32-studio --program demos/call.words --ram 1MiB\n" ++
    ascii "Guide and flowcharts: docs/HELP.md, docs/FLOWCHARTS.md\n"

def commandsText : Bytes :=
  ascii "step [N]                Execute N instructions with effects (default 1).\n" ++
    ascii "run [N]                 Run with a bounded number of attempts.\n" ++
    ascii "stop                    Mark the CPU stopped; step/run resume it.\n" ++
    ascii "reset                   Restore the loaded image and reset CPU state.\n" ++
    ascii "regs                    Show x0..x31 and PC; mark the last changed register.\n" ++
    ascii "mem ADDRESS [BYTES]     Inspect up to 4096 bytes (default 32).\n" ++
    ascii "disasm ADDRESS [COUNT]  Decode up to 256 words (default 8).\n" ++
    ascii "where [ADDRESS]         Show source location (default: current PC).\n" ++
    ascii "sources                 List source file indices from DWARF.\n" ++
    ascii "source [LINE] [INDEX]   Show source context; mark lines without mapped instructions.\n" ++
    ascii "symbols [NAME]          List ELF symbols or find an exact name.\n" ++
    ascii "help runtime            Explain RAM, stack, C libraries, and ELF/binary input.\n" ++
    ascii "help source             Explain instruction-to-source mapping and limitations.\n" ++
    ascii "help formats            Explain instruction layouts and immediates.\n" ++
    ascii "help MNEMONIC           Show syntax and behavior, e.g. help addi.\n" ++
    ascii "quit                    Exit the monitor. Ctrl-C stops a running program.\n" ++
    ascii "EBREAK stays at the breakpoint; use reset to restart the program.\n"

def runtimeText : Bytes :=
  ascii "C target: RV32I / ILP32, freestanding C17, int main(void).\n" ++
    ascii "Default layout: code at 0x1000, globals after code, 4KiB stack at the RAM top.\n" ++
    ascii "Startup sets sp/gp, clears BSS, calls main, then exits with a7=93 + ECALL.\n" ++
    ascii "libgcc provides software arithmetic; memcpy/memmove/memset/memcmp are included.\n" ++
    ascii "There is no hosted libc, printf, malloc, file I/O, or OS. Unsupported ECALLs trap.\n" ++
    ascii "RAM is flat: no MMU, memory permissions, or protected stack guard.\n" ++
    ascii "ELF retains load addresses, entry, symbols and available debug data.\n" ++
    ascii "Raw binary retains bytes only; supply load address, entry and enough RAM.\n" ++
    ascii "Build: make guest SOURCE=demos/c/learning.c RAM=64KiB\n"

def sourceText : Bytes :=
  ascii "The PC and assembly instruction are the execution authority.\n" ++
    ascii "One C line can map to many instructions; the Source label stays until it changes.\n" ++
    ascii "DWARF rows map address ranges, not a one-to-one translation of C statements.\n" ++
    ascii "Declarations, comments, optimized code and other lines may have no mapped instruction.\n" ++
    ascii "Unmapped instructions and missing source files are reported explicitly.\n" ++
    ascii "Source text is read from its recorded path; rebuild after editing a source file.\n" ++
    ascii "The startup and library routines may map to assembly or runtime C, not your main file.\n" ++
    ascii "Use sources, then source LINE FILE_INDEX to inspect any recorded source.\n" ++
    ascii "Local-variable evaluation and source-level stepping belong to the later debugger.\n"

def formatsText : Bytes :=
  ascii "Every RV32I instruction occupies 4 bytes. The PC selects the next word.\n" ++
    ascii "R: rd, rs1, rs2       add x1, x2, x3      values come from two registers\n" ++
    ascii "I: rd, rs1, imm       addi x1, x2, 7      constant comes from the instruction\n" ++
    ascii "S: rs1, rs2, offset   sw x3, 0(x2)        write a register to RAM\n" ++
    ascii "B: rs1, rs2, offset   beq x1, x2, -8      conditional PC-relative branch\n" ++
    ascii "U: rd, upper imm     lui x1, 0x12345     place immediate in bits 31..12\n" ++
    ascii "J: rd, offset        jal x1, 16          jump relative to PC; save PC+4\n" ++
    ascii "I/S offsets: signed 12 bits (-2048..2047). B/J offsets include a zero low bit.\n" ++
    ascii "B: -4096..4094; J: -1048576..1048574. Taken targets must align to 4 bytes.\n" ++
    ascii "Shift immediates are 0..31. Raw rs2 slices in I-format are not register operands.\n" ++
    ascii "x0 always reads zero; writing it discards the result. A load into x0 can still fault.\n"

def instructionDescription : InstructionKind → Bytes
  | .unknown => ascii "Unsupported or illegal in this RV32I environment."
  | .add => ascii "Add two registers; retain the low 32 bits."
  | .sub => ascii "Subtract rs2 from rs1; retain the low 32 bits."
  | .sll => ascii "Shift left by the low five bits of rs2."
  | .slt => ascii "Write 1 when rs1 is less than rs2 as signed values."
  | .sltu => ascii "Write 1 when rs1 is less than rs2 as unsigned values."
  | .xor => ascii "Bitwise exclusive OR."
  | .srl => ascii "Logical right shift; fill high bits with zero."
  | .sra => ascii "Arithmetic right shift; preserve the sign bit."
  | .or => ascii "Bitwise inclusive OR."
  | .and => ascii "Bitwise AND."
  | .addi => ascii "Add a sign-extended 12-bit constant."
  | .slti => ascii "Signed comparison with a sign-extended constant."
  | .sltiu => ascii "Unsigned comparison after sign-extending the constant."
  | .xori => ascii "XOR with a sign-extended 12-bit constant."
  | .ori => ascii "OR with a sign-extended 12-bit constant."
  | .andi => ascii "AND with a sign-extended 12-bit constant."
  | .slli => ascii "Logical left shift by 0 through 31."
  | .srli => ascii "Logical right shift by 0 through 31."
  | .srai => ascii "Arithmetic right shift by 0 through 31."
  | .lui => ascii "Place 20 immediate bits in bits 31 through 12."
  | .auipc => ascii "Add an upper immediate to this instruction's PC."
  | .jal => ascii "Write PC+4 to rd and jump to PC plus signed offset."
  | .jalr => ascii "Write PC+4 to rd; jump to rs1+offset with bit 0 cleared."
  | .beq => ascii "Branch when the register values are equal."
  | .bne => ascii "Branch when the register values differ."
  | .blt => ascii "Branch on signed less-than."
  | .bge => ascii "Branch on signed greater-than or equal."
  | .bltu => ascii "Branch on unsigned less-than."
  | .bgeu => ascii "Branch on unsigned greater-than or equal."
  | .lb => ascii "Read a byte and sign-extend it to 32 bits."
  | .lh => ascii "Read an aligned halfword and sign-extend it."
  | .lw => ascii "Read an aligned 32-bit little-endian word."
  | .lbu => ascii "Read a byte and zero-extend it."
  | .lhu => ascii "Read an aligned halfword and zero-extend it."
  | .sb => ascii "Store the low byte of rs2."
  | .sh => ascii "Store the low halfword of rs2 at an aligned address."
  | .sw => ascii "Store rs2 as an aligned little-endian word."
  | .fence => ascii "Order memory accesses; this sequential machine already orders them."
  | .ecall => ascii "Request an environment service; the core reports a precise trap."
  | .ebreak => ascii "Report a precise breakpoint trap without retiring the instruction."

def knownKinds : List InstructionKind :=
  [.add, .sub, .sll, .slt, .sltu, .xor, .srl, .sra, .or, .and, .addi, .slti, .sltiu, .xori, .ori,
    .andi, .slli, .srli, .srai, .lui, .auipc, .jal, .jalr, .beq, .bne, .blt, .bge, .bltu, .bgeu,
    .lb, .lh, .lw, .lbu, .lhu, .sb, .sh, .sw, .fence, .ecall, .ebreak]

/-- `help MNEMONIC`; the topic is compared in lower case, in a buffer of 32 bytes. -/
def mnemonicHelp (topic : Bytes) : Bytes :=
  if topic.length ≥ 32 then ascii "Unknown help topic.\n"
  else
    match knownKinds.find? fun kind => topic.map tolower = (instructionInfo kind).name with
    | some kind =>
      print [.text (instructionInfo kind).syntaxText, .text (ascii "\n"),
        .text (instructionDescription kind), .text (ascii "\n")] []
    | none => ascii "Unknown help topic. Use help formats or an RV32I mnemonic.\n"

def commandHelp (topic : Option Bytes) : Bytes :=
  match topic with
  | none => commandsText
  | some topic =>
    if topic = ascii "runtime" then runtimeText
    else if topic = ascii "source" then sourceText
    else if topic = ascii "formats" then formatsText
    else mnemonicHelp topic

end Riscv32
