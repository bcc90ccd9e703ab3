import Microcode.Inspector.Arguments
import Microcode.Table.Diagnostic
import Microcode.Table.OpcodeMap
import Microcode.Table.Statistics
import Microcode.Text.Layout
import Microcode.Text.Lines

namespace Microcode.Inspector

structure Response where
  exitCode : UInt32 := 0
  output : String := ""
  complaint : String := ""

def programName : String := "w65816-table"
def version : String := "0.1.0"

inductive Level where
  | info
  | debug
  | trace
  deriving DecidableEq

namespace Level

def name : Level → String
  | .info => "INFO"
  | .debug => "DEBUG"
  | .trace => "TRACE"

def threshold : Level → Nat
  | .info => 1
  | .debug => 2
  | .trace => 3

end Level

structure LogRecord where
  level : Level
  source : String
  message : String

def LogRecord.line (r : LogRecord) : String :=
  s!"{Text.left 5 r.level.name} [{r.source}] {r.message}"

def installRecord (table : Table) (a : Assignment) : Option LogRecord :=
  (table.entry? a.opcode).map fun entry =>
    { level := .trace
      source := "w65816::table::builder"
      message := s!"{opcodeText a.opcode} {a.operation} {a.mode} ({a.operation.access.name}): " ++
        s!"programs at {entry.eightOffset} and {entry.sixteenOffset}" }

def summaryRecord (s : Statistics) : LogRecord where
  level := .debug
  source := "w65816::table::builder"
  message := s!"generated {s.microOps} micro-ops in {s.programs} programs " ++
    s!"({s.sharedPrograms} shared between widths); covered {s.opcodes} opcodes"

def startRecord : LogRecord where
  level := .info
  source := "w65816_table"
  message := s!"{programName} version {version}"

def startLog (table : Table) (map : List Assignment) : List LogRecord :=
  startRecord :: map.filterMap (installRecord table) ++ [summaryRecord table.statistics]

def logLines (verbosity : Nat) (records : List LogRecord) : List String :=
  (records.filter (·.level.threshold ≤ verbosity)).map (·.line)

def programLines (table : Table) (opcode : UInt8) (width : Width) :
    Except IllegalOpcode (List String) :=
  match table.instruction? opcode width with
  | none => .error ⟨opcode, width⟩
  | some instruction =>
    let program := table.programAt instruction.offset
    let head := s!"{opcodeText opcode} {instruction.operation} ({width}): " ++
      s!"program at {instruction.offset}, {program.busCycles} bus cycles at most"
    .ok (head :: program.zipIdx.map fun (u, i) => s!"{Text.right 4 (toString i)}  {u}")

def dumpLine (table : Table) (opcode : UInt8) (entry : Entry) : String :=
  let cycles (offset : Nat) := Text.right 2 (toString (table.programAt offset).busCycles)
  " ".intercalate
    [opcodeText opcode, Text.left 4 (toString entry.operation),
      Text.right 5 (toString entry.eightOffset), Text.right 5 (toString entry.sixteenOffset),
      cycles entry.eightOffset, cycles entry.sixteenOffset]

def Command.lines (table : Table) : Command → Except IllegalOpcode (List String)
  | .stats => .ok table.statistics.lines
  | .dump => .ok (table.implemented.map fun (opcode, entry) => dumpLine table opcode entry)
  | .show opcode (some width) => programLines table opcode width
  | .show opcode none => (·.flatten) <$> Width.all.mapM (programLines table opcode)

def helpLines : Topic → List String
  | .inspector =>
    [summary, "", "Usage: w65816-table [OPTIONS] <COMMAND>", "", "Commands:",
      "  stats  Print size and sharing statistics of the table",
      "  show   Print the programs of one opcode",
      "  dump   Print one line per implemented opcode",
      "  help   Print this message or the help of the given subcommand(s)", "", "Options:",
      "  -v, --verbose...  Verbosity level to use",
      "  -h, --help        Print help",
      "  -V, --version     Print version"]
  | .stats =>
    ["Print size and sharing statistics of the table", "", "Usage: w65816-table stats", "",
      "Options:", "  -h, --help  Print help"]
  | .dump =>
    ["Print one line per implemented opcode", "", "Usage: w65816-table dump", "", "Options:",
      "  -h, --help  Print help"]
  | .show =>
    ["Print the programs of one opcode", "", "Usage: w65816-table show [OPTIONS] <OPCODE>", "",
      "Arguments:", "  <OPCODE>  The opcode, in decimal or as 0x- or $-prefixed hexadecimal", "",
      "Options:",
      "  -w, --width <WIDTH>  Only print the program for this width (8 or 16)",
      "  -h, --help           Print help"]
  | .help =>
    ["Print this message or the help of the given subcommand(s)", "",
      "Usage: w65816-table help [COMMAND]..."]

-- Nothing that was given reaches a terminal as a control sequence.
def ArgumentError.report : ArgumentError → String
  | .nothingGiven => Text.unlines (helpLines .inspector)
  | error =>
    Terminal.plain
      (error.message ++ "\n\nFor more information, try " ++ quoted "--help" ++ ".\n")

def respond (table : Table) (map : List Assignment) (arguments : List String) : Response :=
  match Request.ofArguments arguments with
  | .error error => { exitCode := 2, complaint := error.report }
  | .ok .version => { output := Text.unlines [s!"{programName} {version}"] }
  | .ok (.help topic) => { output := Text.unlines (helpLines topic) }
  | .ok (.inspect verbosity command) =>
    let log := logLines verbosity (startLog table map)
    match command.lines table with
    | .ok lines => { output := Text.unlines (log ++ lines) }
    | .error illegal =>
      { exitCode := 1
        output := Text.unlines log
        complaint := Text.unlines illegal.diagnostic.report }

end Microcode.Inspector
