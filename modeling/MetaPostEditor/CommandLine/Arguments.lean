/-!
# The command line

The program takes at most one file and these options:

* `-s ARGS`, `--set ARGS`: directives for the options of the editor, any number of times;
* `-p ENTRY`, `--palette ENTRY`: an entry of the palette, any number of times;
* `-t`, `--type`: type the text key by key instead of pasting it;
* `--spans`: list the spans instead of showing them in colour;
* `--plain`: start from the palette that sets nothing apart;
* `-V`, `--version` and `-h`, `--help`: say something about the program and do nothing else.

One dash may be followed by several letters.  A value stands in the next argument, where it must not
look like an option, or in the same argument, with or without an equals sign after a letter and with
one after a long name.  After `--` every argument is a file.  The arguments are read from left to
right, and the first that cannot be used, or that asks for information, settles the matter.
-/

namespace MetaPostEditor
namespace CommandLine

/-- Options that are given or not. -/
inductive Switch where
  | typed
  | spans
  | plain
deriving DecidableEq

/-- Options with a value. -/
inductive Valued where
  | set
  | palette
deriving DecidableEq

/-- What an option can stand for. -/
inductive Item where
  | switch (s : Switch)
  | valued (v : Valued)
  | version
  | help
deriving DecidableEq

/-- The option with a given long name. -/
def Item.ofLong? : String → Option Item
  | "set" => some (.valued .set)
  | "palette" => some (.valued .palette)
  | "type" => some (.switch .typed)
  | "spans" => some (.switch .spans)
  | "plain" => some (.switch .plain)
  | "version" => some .version
  | "help" => some .help
  | _ => none

/-- The option with a given letter. -/
def Item.ofLetter? : Char → Option Item
  | 's' => some (.valued .set)
  | 'p' => some (.valued .palette)
  | 't' => some (.switch .typed)
  | 'V' => some .version
  | 'h' => some .help
  | _ => none

/-- Why a command line cannot be used. -/
inductive UsageError where
  /-- There is no such option. -/
  | unknownOption (arg : String)
  /-- An option that needs a value has none. -/
  | missingValue
  /-- An option that takes no value has one. -/
  | needlessValue (arg : String)
  /-- An option that can be given once is given again. -/
  | repeated
  | secondFile (arg : String)
  | emptyFile
  /-- `--spans` and `--plain` are both given. -/
  | conflict
deriving DecidableEq

/-- The text that reports the error. -/
def UsageError.message : UsageError → String
  | unknownOption arg => s!"unexpected argument: {arg}"
  | missingValue => "a value is required"
  | needlessValue arg => s!"unexpected value: {arg}"
  | repeated => "an option is given more than once"
  | secondFile arg => s!"unexpected argument: {arg}"
  | emptyFile => "the name of the file is empty"
  | conflict => "--spans and --plain exclude each other"

/-- How the styled text is written. -/
inductive Format where
  /-- With escape sequences, from the palette that is used by itself. -/
  | colored
  /-- With escape sequences, from the palette that sets nothing apart. -/
  | plain
  /-- As a list of spans. -/
  | spans
deriving DecidableEq

/-- What the user wants done. -/
structure Request where
  file : Option String
  sets : List String
  typed : Bool
  format : Format
  palette : List String
deriving DecidableEq

/-- What a command line asks for. -/
inductive Invocation where
  | process (r : Request)
  | version
  | help
deriving DecidableEq

/-- What ends the reading of arguments early. -/
inductive Halt where
  | usage (e : UsageError)
  | version
  | help
deriving DecidableEq

/-- What the arguments read so far say. -/
structure Progress where
  file : Option String
  sets : List String
  palette : List String
  typed : Bool
  spans : Bool
  plain : Bool
  /-- An option whose value has not come yet. -/
  awaiting : Option Valued
  /-- The argument `--` has come. -/
  filesOnly : Bool
deriving DecidableEq

namespace Progress

/-- Nothing has been read. -/
def start : Progress :=
  ⟨none, [], [], false, false, false, none, false⟩

/-- A file is named. -/
def addFile (p : Progress) (arg : String) : Except Halt Progress :=
  if p.file.isSome then throw (.usage (.secondFile arg))
  else if arg.isEmpty then throw (.usage .emptyFile)
  else return { p with file := some arg }

/-- An option has its value. -/
def addValue (p : Progress) (v : Valued) (value : String) : Progress :=
  match v with
  | .set => { p with sets := p.sets ++ [value], awaiting := none }
  | .palette => { p with palette := p.palette ++ [value], awaiting := none }

/-- A switch is given. -/
def turnOn (p : Progress) (s : Switch) : Except Halt Progress :=
  let already := match s with
    | .typed => p.typed
    | .spans => p.spans
    | .plain => p.plain
  if already then throw (.usage .repeated)
  else return match s with
    | .typed => { p with typed := true }
    | .spans => { p with spans := true }
    | .plain => { p with plain := true }

/-- Reads what follows two dashes. -/
def long (p : Progress) (text : List Char) : Except Halt Progress :=
  let name := String.ofList (text.takeWhile fun c => c != '=')
  let value? := match text.dropWhile fun c => c != '=' with
    | [] => none
    | _ :: value => some (String.ofList value)
  match Item.ofLong? name, value? with
  | none, _ => throw (.usage (.unknownOption name))
  | some (.valued v), some value => return p.addValue v value
  | some (.valued v), none => return { p with awaiting := some v }
  | some _, some value => throw (.usage (.needlessValue value))
  | some (.switch s), none => p.turnOn s
  | some .version, none => throw .version
  | some .help, none => throw .help

/-- Reads the letters that follow one dash. -/
def letters (p : Progress) : List Char → Except Halt Progress
  | [] => return p
  | c :: rest =>
    match Item.ofLetter? c with
    | none => throw (.usage (.unknownOption (String.singleton c)))
    | some (.switch s) => do
      let p' ← p.turnOn s
      p'.letters rest
    | some .version => throw .version
    | some .help => throw .help
    | some (.valued v) =>
      match rest with
      | [] => return { p with awaiting := some v }
      | '=' :: value => return p.addValue v (String.ofList value)
      | value => return p.addValue v (String.ofList value)

/-- Reads an argument.  A single dash is not an option. -/
def step (p : Progress) (arg : String) : Except Halt Progress :=
  if p.filesOnly then p.addFile arg
  else
    match p.awaiting, arg.toList with
    | some _, '-' :: _ :: _ => throw (.usage .missingValue)
    | some v, _ => return p.addValue v arg
    | none, ['-', '-'] => return { p with filesOnly := true }
    | none, '-' :: '-' :: text => p.long text
    | none, '-' :: c :: rest => p.letters (c :: rest)
    | none, _ => p.addFile arg

/-- All arguments have been read. -/
def finish (p : Progress) : Except UsageError Request :=
  if p.awaiting.isSome then throw .missingValue
  else if p.spans && p.plain then throw .conflict
  else
    return {
      file := p.file
      sets := p.sets
      typed := p.typed
      format := if p.spans then .spans else if p.plain then .plain else .colored
      palette := p.palette }

end Progress

/-- Reads a command line, without the name of the program. -/
def parse (args : List String) : Except UsageError Invocation :=
  match args.foldlM Progress.step Progress.start with
  | .ok p => p.finish.map .process
  | .error (.usage e) => .error e
  | .error .version => .ok .version
  | .error .help => .ok .help

end CommandLine
end MetaPostEditor
