import Bytecode.Listing

/-!
# Texts about the program
-/

namespace Bytecode

namespace CommandLine

def version : String := "fourg 0.4.0\n"

def help : String :=
  unlines
    ["Bytecode VM for resolved fourg programs",
      "",
      "Usage: fourg <COMMAND>",
      "",
      "Commands:",
      "  run     Compile and run a program given as resolved-tree JSON",
      "  disasm  Print the disassembly of a program",
      "  help    Print this message or the help of the given subcommand(s)",
      "",
      "Options:",
      "  -h, --help     Print help",
      "  -V, --version  Print version"]

def runHelp : String :=
  unlines
    ["Compile and run a program given as resolved-tree JSON",
      "",
      "Usage: fourg run [OPTIONS] <PROGRAM>",
      "",
      "Arguments:",
      "  <PROGRAM>  ",
      "",
      "Options:",
      "      --disassemble                  Print the disassembly before running",
      "      --stats                        Print heap statistics after the run",
      "      --json                         Print the heap statistics as JSON instead",
      "      --gc-threshold <GC_THRESHOLD>  Live objects before the first collection",
      "      --gc-increment <GC_INCREMENT>  Amount the threshold grows by after every collection",
      "      --max-stack <MAX_STACK>        Stack limit in slots",
      "  -h, --help                         Print help"]

def disasmHelp : String :=
  unlines
    ["Print the disassembly of a program",
      "",
      "Usage: fourg disasm [OPTIONS] <PROGRAM>",
      "",
      "Arguments:",
      "  <PROGRAM>  ",
      "",
      "Options:",
      "      --json  Dump the whole executable as JSON",
      "  -h, --help  Print help"]

def helpHelp : String :=
  unlines
    ["Print this message or the help of the given subcommand(s)",
      "",
      "Usage: fourg help [COMMAND]...",
      "",
      "Arguments:",
      "  [COMMAND]...  Print help for the subcommand(s)"]

end CommandLine

end Bytecode
