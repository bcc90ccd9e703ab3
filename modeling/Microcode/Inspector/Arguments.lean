import Microcode.Inspector.OpcodeNumeral
import Microcode.Instruction.Width
import Microcode.Text.Terminal

namespace Microcode.Inspector

inductive Command where
  | stats
  | dump
  | show (opcode : UInt8) (width : Option Width)
  deriving DecidableEq

inductive Topic where
  | inspector
  | stats
  | show
  | dump
  | help
  deriving DecidableEq

inductive Request where
  | inspect (verbosity : Nat) (command : Command)
  | version
  | help (topic : Topic)
  deriving DecidableEq

inductive ArgumentError where
  | nothingGiven
  | missingCommand
  | unrecognizedCommand (text : String)
  | unexpectedArgument (text : String)
  | unexpectedValue (value option : String)
  | invalidOpcode (text : String) (cause : NumeralError)
  | invalidWidth (text : String)
  | missingWidth
  | repeatedWidth
  | missingOpcode
  deriving DecidableEq

def summary : String :=
  "Inspect the compiled WDC 65816 micro-op table"

def quoted (text : String) : String :=
  "'" ++ Terminal.emphasize text ++ "'"

def ArgumentError.message : ArgumentError → String
  | .nothingGiven => summary
  | .missingCommand => "error: 'w65816-table' requires a subcommand but one was not provided"
  | .unrecognizedCommand text => s!"error: unrecognized subcommand {quoted text}"
  | .unexpectedArgument text => s!"error: unexpected argument {quoted text} found"
  | .unexpectedValue value option =>
    s!"error: unexpected value {quoted value} for '{option}' found; no more were expected"
  | .invalidOpcode text cause =>
    s!"error: invalid value {quoted text} for '<OPCODE>': {cause.message}"
  | .invalidWidth text =>
    s!"error: invalid value {quoted text} for '--width <WIDTH>': " ++
      s!"width must be 8 or 16, not {text}"
  | .missingWidth => "error: a value is required for '--width <WIDTH>' but none was supplied"
  | .repeatedWidth => "error: the argument '--width <WIDTH>' cannot be used multiple times"
  | .missingOpcode => "error: the following required arguments were not provided:"

-- An argument by its form. A lone dash is plain, two of them end the options.
inductive Argument where
  | endOfOptions
  | long (name : String) (value : Option String)
  | short (letters : List Char)
  | plain (text : String)
  deriving DecidableEq

def splitValue (text : List Char) : String × Option String :=
  let (name, rest) := text.span (· != '=')
  (String.ofList name, rest.tail? |>.map String.ofList)

def Argument.ofText (text : String) : Argument :=
  match text.toList with
  | ['-', '-'] => .endOfOptions
  | '-' :: '-' :: rest =>
    let (name, value) := splitValue rest
    .long name value
  | ['-'] => .plain text
  | '-' :: letters => .short letters
  | _ => .plain text

def letterText (letter : Char) : String :=
  String.ofList ['-', letter]

namespace PlainCommand

def afterOptions (request : Request) : List String → Except ArgumentError Request
  | [] => .ok request
  | text :: _ => .error (.unexpectedArgument text)

def parse (request : Request) (topic : Topic) : List String → Except ArgumentError Request
  | [] => .ok request
  | text :: rest =>
    match Argument.ofText text with
    | .endOfOptions => afterOptions request rest
    | .long "help" none => .ok (.help topic)
    | .long "help" (some value) => .error (.unexpectedValue value "--help")
    | .long name _ => .error (.unexpectedArgument ("--" ++ name))
    | .short ('h' :: _) => .ok (.help topic)
    | .short letters => .error (.unexpectedArgument (letterText (letters.headD '-')))
    | .plain text => .error (.unexpectedArgument text)

end PlainCommand

-- A value that has been seen and is not read yet. It is read when the next
-- option or opcode takes its turn, or at the end; an argument that does not
-- belong is reported first.
inductive Pending where
  | nothing
  | opcode (text : String)
  | width (text : Option String)
  deriving DecidableEq

namespace ShowCommand

structure Progress where
  opcode : Option UInt8 := none
  opcodeSeen : Bool := false
  width : Option Width := none
  pending : Pending := .nothing
  deriving DecidableEq

namespace Progress

def setOpcode (p : Progress) (text : String) : Except ArgumentError Progress :=
  match opcodeOfText text with
  | .ok opcode => .ok { p with opcode := some opcode }
  | .error cause => .error (.invalidOpcode text cause)

def setWidth (p : Progress) (text : String) : Except ArgumentError Progress :=
  match p.width, text with
  | some _, _ => .error .repeatedWidth
  | none, "8" => .ok { p with width := some .eight }
  | none, "16" => .ok { p with width := some .sixteen }
  | none, _ => .error (.invalidWidth text)

def settle (p : Progress) : Except ArgumentError Progress :=
  let settled := { p with pending := .nothing }
  match p.pending with
  | .nothing => .ok settled
  | .opcode text => settled.setOpcode text
  | .width none => .error .missingWidth
  | .width (some text) => settled.setWidth text

def awaitWidth (p : Progress) : Except ArgumentError Progress := do
  return { ← p.settle with pending := .width none }

def attachWidth (p : Progress) (text : String) : Except ArgumentError Progress := do
  (← p.settle).setWidth text

def takeOpcode (p : Progress) (text : String) : Except ArgumentError Progress := do
  if p.opcodeSeen then throw (.unexpectedArgument text)
  return { ← p.settle with pending := .opcode text, opcodeSeen := true }

def takePlain (p : Progress) (text : String) : Except ArgumentError Progress :=
  match p.pending with
  | .width none => .ok { p with pending := .width (some text) }
  | _ => p.takeOpcode text

def finish (p : Progress) (verbosity : Nat) : Except ArgumentError Request := do
  let p ← p.settle
  match p.opcode with
  | some opcode => return .inspect verbosity (.show opcode p.width)
  | none => throw .missingOpcode

end Progress

def attachedValue? : List Char → Option String
  | [] => none
  | '=' :: value => some (String.ofList value)
  | value => some (String.ofList value)

def afterOptions (verbosity : Nat) (p : Progress) : List String → Except ArgumentError Request
  | [] => p.finish verbosity
  | text :: rest => do afterOptions verbosity (← p.takeOpcode text) rest

def help (p : Progress) : Except ArgumentError Request := do
  let _ ← p.settle
  return .help .show

def parse (verbosity : Nat) (p : Progress) : List String → Except ArgumentError Request
  | [] => p.finish verbosity
  | text :: rest =>
    match Argument.ofText text with
    | .endOfOptions => afterOptions verbosity p rest
    | .long "width" none => do parse verbosity (← p.awaitWidth) rest
    | .long "width" (some value) => do parse verbosity (← p.attachWidth value) rest
    | .long "help" none => help p
    | .long "help" (some value) => .error (.unexpectedValue value "--help")
    | .long name _ => .error (.unexpectedArgument ("--" ++ name))
    | .short ('w' :: attached) =>
      match attachedValue? attached with
      | none => do parse verbosity (← p.awaitWidth) rest
      | some value => do parse verbosity (← p.attachWidth value) rest
    | .short ('h' :: _) => help p
    | .short letters => .error (.unexpectedArgument (letterText (letters.headD '-')))
    | .plain text => do parse verbosity (← p.takePlain text) rest

end ShowCommand

def helpOn : List String → Except ArgumentError Request
  | [] => .ok (.help .inspector)
  | name :: rest =>
    let topic? : Option Topic := match name with
      | "stats" => some .stats
      | "show" => some .show
      | "dump" => some .dump
      | "help" => some .help
      | _ => none
    match topic?, rest with
    | none, _ => .error (.unrecognizedCommand name)
    | some topic, [] => .ok (.help topic)
    | some _, next :: _ => .error (.unrecognizedCommand next)

structure Options where
  verbosity : Nat := 0
  given : Bool := false
  deriving DecidableEq

namespace Options

def moreVerbose (o : Options) : Options :=
  { verbosity := o.verbosity + 1, given := true }

def missing (o : Options) : ArgumentError :=
  if o.given then .missingCommand else .nothingGiven

def isCommand (text : String) : Bool :=
  ["stats", "show", "dump", "help"].contains text

def afterOptions (o : Options) : List String → ArgumentError
  | [] => o.missing
  | text :: _ => if isCommand text then .unexpectedArgument text else .unrecognizedCommand text

def takeLetters (o : Options) : List Char → Except ArgumentError (Options ⊕ Request)
  | [] => .ok (.inl o)
  | 'v' :: rest => o.moreVerbose.takeLetters rest
  | 'V' :: _ => .ok (.inr .version)
  | 'h' :: _ => .ok (.inr (.help .inspector))
  | letter :: _ => .error (.unexpectedArgument (letterText letter))

def takeLong (o : Options) (name : String) (value : Option String) :
    Except ArgumentError (Options ⊕ Request) :=
  match name, value with
  | "verbose", none => .ok (.inl o.moreVerbose)
  | "version", none => .ok (.inr .version)
  | "help", none => .ok (.inr (.help .inspector))
  | "verbose", some value => .error (.unexpectedValue value "--verbose...")
  | "version", some value => .error (.unexpectedValue value "--version")
  | "help", some value => .error (.unexpectedValue value "--help")
  | name, _ => .error (.unexpectedArgument ("--" ++ name))

def parse (o : Options) : List String → Except ArgumentError Request
  | [] => .error o.missing
  | text :: rest =>
    match text with
    | "stats" => PlainCommand.parse (.inspect o.verbosity .stats) .stats rest
    | "dump" => PlainCommand.parse (.inspect o.verbosity .dump) .dump rest
    | "show" => ShowCommand.parse o.verbosity {} rest
    | "help" => helpOn rest
    | _ =>
      match Argument.ofText text with
      | .endOfOptions => .error (o.afterOptions rest)
      | .plain text => .error (.unrecognizedCommand text)
      | .long name value => do
        match ← o.takeLong name value with
        | .inl o => parse o rest
        | .inr request => return request
      | .short letters => do
        match ← o.takeLetters letters with
        | .inl o => parse o rest
        | .inr request => return request

end Options

def Request.ofArguments (arguments : List String) : Except ArgumentError Request :=
  Options.parse {} arguments

end Microcode.Inspector
