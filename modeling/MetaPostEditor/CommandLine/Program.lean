import MetaPostEditor.CommandLine.Arguments
import MetaPostEditor.SpanDump
import MetaPostEditor.Terminal.Column
import MetaPostEditor.Terminal.Pen
import MetaPostEditor.Typing

/-!
# The program

The text is read, the options and the palette are set up, the text is entered into an empty editor,
and what the editor holds is written to the standard output.  The place of the caret goes to the
standard error stream, as do the answers to directives and the report of a failure.
-/

namespace MetaPostEditor
namespace CommandLine

/-- The name under which the program reports. -/
def programName : String := "mpedit"

/-- The version of the program. -/
def version : String := "0.1.0"

/-- Where the text comes from. -/
inductive Source where
  | stdin
  | file (path : String)
deriving DecidableEq

/-- A path that names the standard input: a dash, with at most steps behind it that stay where they
are. -/
def namesStdin (path : String) : Bool :=
  match Text.split (fun c => c == '/') path.toList with
  | ['-'] :: steps => steps.all fun step => step == [] || step == ['.']
  | _ => false

/-- The source of a request: the standard input if no file is named. -/
def Request.source (r : Request) : Source :=
  match r.file with
  | none => .stdin
  | some path => if namesStdin path then .stdin else .file path

/-- Why a text cannot be read. -/
inductive ReadError where
  | notFound
  | isDirectory
  | notDirectory
  | nameTooLong
  | notText
  /-- Another failure, as the system describes it. -/
  | other (description : String)
deriving DecidableEq

/-- The text that reports the failure. -/
def ReadError.message : ReadError → String
  | notFound => "No such file or directory (os error 2)"
  | isDirectory => "Is a directory (os error 21)"
  | notDirectory => "Not a directory (os error 20)"
  | nameTooLong => "File name too long (os error 36)"
  | notText => "stream did not contain valid UTF-8"
  | other description => description

/-- Why the program gives up. -/
inductive Failure where
  | read (source : Source) (e : ReadError)
  | set (args : String) (e : OptionError)
  | palette (entry : String) (e : Terminal.PaletteError)
  | edit (e : EditError)
  | typing (e : TypingError)
deriving DecidableEq

/-- The text that reports the failure: what the program was about, and what went wrong. -/
def Failure.message : Failure → String
  | read .stdin e => s!"cannot read stdin: {e.message}"
  | read (.file path) e => s!"cannot read {path}: {e.message}"
  | set args e => s!"--set {args}: {e.message}"
  | palette entry e => s!"--palette {entry}: {e.message}"
  | edit e => e.message
  | typing e => e.message

/-- What the program leaves behind. -/
structure Outcome where
  code : Nat
  stdout : String
  stderr : String
deriving DecidableEq

/-- Takes the bytes of an input as UTF-8. -/
def decode (source : Source) (input : Except ReadError ByteArray) : Except Failure (List Char) :=
  match input with
  | .error e => .error (.read source e)
  | .ok bytes =>
    match String.fromUTF8? bytes with
    | some text => .ok text.toList
    | none => .error (.read source .notText)

/-- Sets options one after the other.  Returns the lines that are shown on the way. -/
def setOptions (ed : Editor) : List String → List String × Except Failure Editor
  | [] => ([], .ok ed)
  | args :: rest =>
    match ed.set args with
    | (.error e, _) => ([], .error (.set args e))
    | (.ok shown, ed') =>
      let (lines, result) := setOptions ed' rest
      (shown.toList ++ lines, result)

/-- Lines as they are written, each with a newline behind it. -/
def report (lines : List String) : String :=
  String.join (lines.map fun line => line ++ "\n")

namespace Request

/-- The palette that a request asks for. -/
def looks (r : Request) : Except Failure Terminal.Palette :=
  let base := if r.format = .plain then Terminal.Palette.plain else .default
  match base.setEntries r.palette with
  | .ok p => .ok p
  | .error (entry, e) => .error (.palette entry e)

/-- Enters a text into an editor in the way that a request asks for. -/
def enter (r : Request) (ed : Editor) (text : List Char) : Except Failure Editor :=
  if r.typed then
    match ed.typeText text with
    | (.ok _, ed') => .ok ed'
    | (.error e, _) => .error (.typing e)
  else
    match ed.paste text with
    | .ok ed' => .ok ed'
    | .error e => .error (.edit e)

/-- The styled text in the format that a request asks for. -/
def write (r : Request) (palette : Terminal.Palette) (ed : Editor) : List Char :=
  match r.format with
  | .spans => SpanDump.render ed.buffer.allSpans
  | _ => Terminal.render palette ed.buffer.allSpans

/-- Line and column of the caret on the screen, counted from one. -/
def caretReport (ed : Editor) : String :=
  let position := ed.caretPosition
  let line := ed.text.drop (ed.caret - position.column)
  let column := Terminal.displayColumn line (UInt64.ofNat position.column)
  Position.render ⟨position.line, column.toNat⟩

/-- Enters the text and writes it.  Returns what goes to the standard output and the place of the
caret. -/
def finish (r : Request) (ed : Editor) (text : List Char) :
    Except Failure (List Char × String) := do
  let palette ← r.looks
  let ed' ← r.enter ed text
  return (r.write palette ed', caretReport ed')

/-- Reads the text, sets the options and finishes.  Returns the lines that are shown on the way, and
what comes out. -/
def process (r : Request) (input : Except ReadError ByteArray) :
    List String × Except Failure (List Char × String) :=
  match decode r.source input with
  | .error e => ([], .error e)
  | .ok text =>
    let (shown, ready) := setOptions (Editor.empty Options.default) r.sets
    (shown, ready.bind fun ed => r.finish ed text)

/-- Carries out a request, given the bytes of its source. -/
def run (r : Request) (input : Except ReadError ByteArray) : Outcome :=
  match r.process input with
  | (shown, .error e) => ⟨1, "", report (shown ++ [s!"{programName}: {e.message}"])⟩
  | (shown, .ok (out, caret)) => ⟨0, String.ofList out, report (shown ++ [caret])⟩

end Request

/-- Answers the question for the version. -/
def versionOutcome : Outcome :=
  ⟨0, s!"{programName} {version}\n", ""⟩

end CommandLine
end MetaPostEditor
