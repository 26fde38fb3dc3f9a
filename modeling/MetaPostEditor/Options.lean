import MetaPostEditor.Numeral
import MetaPostEditor.Text

/-!
# Options

What the editor does can be changed through four options: three flags and a number.  They are set
and shown by directives:

* `name` turns a flag on, or shows the number;
* `noname` turns a flag off;
* `name!` turns a flag over;
* `name?` shows an option;
* `name=N` sets the number;
* `all` shows all options, and no directive at all those that differ from their defaults.

Each option has a full name and a short one.
-/

namespace MetaPostEditor

/-- The options that are on or off. -/
inductive Flag where
  /-- Enter continues the indentation of the line. -/
  | autoindent
  /-- Comments are shown as such. -/
  | comments
  /-- Backspace in an indentation goes back to the nearest shallower one. -/
  | outdent
deriving DecidableEq

/-- The options. -/
inductive Setting where
  | flag (f : Flag)
  /-- How many edits can be undone. -/
  | undolevels
deriving DecidableEq

namespace Setting

/-- All options, in the order they are shown. -/
def all : List Setting :=
  [flag .autoindent, flag .comments, flag .outdent, undolevels]

/-- The full name. -/
def name : Setting → String
  | flag .autoindent => "autoindent"
  | flag .comments => "comments"
  | flag .outdent => "outdent"
  | undolevels => "undolevels"

/-- The option with a given full or short name. -/
def ofName? : String → Option Setting
  | "autoindent" | "ai" => some (flag .autoindent)
  | "outdent" | "od" => some (flag .outdent)
  | "comments" | "com" => some (flag .comments)
  | "undolevels" | "ul" => some undolevels
  | _ => none

end Setting

/-- The name is that of a flag. -/
def isFlagName (name : String) : Bool :=
  match Setting.ofName? name with
  | some (.flag _) => true
  | _ => false

/-- The name is that of a number. -/
def isNumberName (name : String) : Bool :=
  Setting.ofName? name == some .undolevels

/-- A flag is shown by its name if it is on, and otherwise with `no` in front. -/
def describeFlag (name : String) (value : Bool) : String :=
  if value then name else "no" ++ name

/-- A request to set or show options, with names and values as they were written. -/
inductive Directive where
  | on (name : String)
  | off (name : String)
  | toggle (name : String)
  | query (name : String)
  | assign (name value : String)
  | showChanged
  | showAll
deriving DecidableEq

namespace Directive

/-- The directive that a word stands for.  A leading `no` counts only before the name of a flag. -/
def ofWord (word : List Char) : Directive :=
  if word = ['a', 'l', 'l'] then showAll
  else if let some (name, value) := Text.cut? '=' word then
    assign (String.ofList name) (String.ofList value)
  else if let some name := Text.dropFinal? '?' word then query (String.ofList name)
  else if let some name := Text.dropFinal? '!' word then toggle (String.ofList name)
  else if let some name :=
      (['n', 'o'].isPrefixOf? word).filter (fun name => isFlagName (String.ofList name)) then
    off (String.ofList name)
  else if isNumberName (String.ofList word) then query (String.ofList word)
  else on (String.ofList word)

/-- The directives in a text, which are separated by white space. -/
def parseAll (args : String) : List Directive :=
  match Text.words args.toList with
  | [] => [showChanged]
  | words => words.map ofWord

end Directive

/-- Why a directive is refused. -/
inductive OptionError where
  | unknown (name : String)
  | notFlag (name : String)
  | notNumber (name : String)
  /-- The value written for an option is no number that it can have. -/
  | invalidValue (setting : Setting) (value : String)
deriving DecidableEq

/-- The text that reports the refusal. -/
def OptionError.message : OptionError → String
  | unknown name => s!"unknown option: {name}"
  | notFlag name => s!"not a boolean option: {name}"
  | notNumber name => s!"not a numeric option: {name}"
  | invalidValue setting value => s!"invalid value for {setting.name}: {value}"

/-- The values of all options. -/
structure Options where
  autoindent : Bool
  outdent : Bool
  comments : Bool
  undolevels : UInt64
deriving DecidableEq

namespace Options

/-- The values that hold until a directive changes them. -/
def default : Options :=
  ⟨true, true, false, 1000⟩

/-- The value of a flag. -/
def flag (o : Options) : Flag → Bool
  | .autoindent => o.autoindent
  | .comments => o.comments
  | .outdent => o.outdent

/-- Gives a flag a value. -/
def setFlag (o : Options) (f : Flag) (value : Bool) : Options :=
  match f with
  | .autoindent => { o with autoindent := value }
  | .comments => { o with comments := value }
  | .outdent => { o with outdent := value }

/-- How an option is shown. -/
def describe (o : Options) (s : Setting) : String :=
  match s with
  | .flag f => describeFlag s.name (o.flag f)
  | .undolevels => s!"{s.name}={o.undolevels}"

/-- How several options are shown. -/
def list (o : Options) (settings : List Setting) : String :=
  "  ".intercalate (settings.map o.describe)

/-- The options that differ from their defaults. -/
def changed (o : Options) : List Setting :=
  Setting.all.filter fun s => o.describe s != default.describe s

/-- The option that a name in a directive stands for. -/
def find (name : String) : Except OptionError Setting :=
  match Setting.ofName? name with
  | some s => .ok s
  | none => .error (.unknown name)

/-- The flag that a name in a directive stands for. -/
def findFlag (name : String) : Except OptionError Flag := do
  match ← find name with
  | .flag f => return f
  | .undolevels => throw (.notFlag name)

/-- Carries out a directive.  Returns the new values and what is to be shown. -/
def apply (o : Options) : Directive → Except OptionError (Options × Option String)
  | .on name => do
    let f ← findFlag name
    return (o.setFlag f true, none)
  | .off name => do
    let f ← findFlag name
    return (o.setFlag f false, none)
  | .toggle name => do
    let f ← findFlag name
    return (o.setFlag f (!o.flag f), none)
  | .query name => do
    let s ← find name
    return (o, some (o.describe s))
  | .assign name value => do
    match ← find name with
    | .flag _ => throw (.notNumber name)
    | .undolevels =>
      match Numeral.read? 10 UInt64.size value.toList with
      | some n => return ({ o with undolevels := UInt64.ofNat n }, none)
      | none => throw (.invalidValue .undolevels value)
  | .showChanged => return (o, some (o.list o.changed))
  | .showAll => return (o, some (o.list Setting.all))

/-- Carries out directives up to the first that is refused.  Returns what is to be shown, or
the refusal, and the values as they are then. -/
def applyAll (o : Options) : List Directive → Except OptionError (List String) × Options
  | [] => (.ok [], o)
  | d :: rest =>
    match o.apply d with
    | .error e => (.error e, o)
    | .ok (o', shown) =>
      let (more, o'') := o'.applyAll rest
      (more.map (shown.toList ++ ·), o'')

/-- What is told of the messages of directives: a line for each, if there are any. -/
def report (shown : List String) : Option String :=
  if shown.isEmpty then none else some ("\n".intercalate shown)

/-- Carries out the directives in a text. -/
def set (o : Options) (args : String) : Except OptionError (Option String) × Options :=
  let (shown, o') := o.applyAll (Directive.parseAll args)
  (shown.map report, o')

end Options
end MetaPostEditor
