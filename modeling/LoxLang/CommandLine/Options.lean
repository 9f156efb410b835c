import LoxLang.Text.Numeral
import LoxLang.Text.Quoted

/-!
# Options

The arguments of the command line are at most one file and any number of flags.  A flag
has a short name of one letter after a dash and a long name after two dashes, of which
any part from its beginning will do if it fits one flag only.  Short flags can be
written together after one dash.  After a lone double dash, every argument is a file;
so are a dash by itself, a negative number, and what begins with a dash and has a space
in it but fits no flag.

All arguments are sorted first, and a long name that fits several flags is an error
wherever it stands.  Then the arguments are taken in order, and the flag for help ends
the work at once.  Arguments that nothing takes are reported together at the end.

## Main definitions

* `Flag`, `Options` — the flags, and what the arguments amount to.
* `Argument` — an argument by its role, with `Argument.sort`.
* `OptionsFault` — what is wrong with the arguments, with the wording.
* `Request.ofArguments` — what the arguments of a command line ask for.

## References

The argument parser of the reference's `main`.
-/

namespace LoxLang

/-- A flag. -/
inductive Flag where
  /-- Asks for an explanation. -/
  | help
  /-- Asks for accounts of the work. -/
  | verbose
  /-- Keeps warnings from being written. -/
  | noWarnings
  deriving DecidableEq, Repr, Inhabited

namespace Flag

/-- All flags, in the order in which they are listed. -/
def all : List Flag := [.help, .verbose, .noWarnings]

/-- The letter of the short name. -/
def letter : Flag → Char
  | .help => 'h'
  | .verbose => 'v'
  | .noWarnings => 'W'

/-- The long name. -/
def longName : Flag → String
  | .help => "--help"
  | .verbose => "--verbose"
  | .noWarnings => "--no-warnings"

/-- Both names, as they are shown. -/
def names (f : Flag) : String := String.ofList ['-', f.letter] ++ "/" ++ f.longName

/-- The flag with a letter. -/
def ofLetter? (c : Char) : Option Flag := all.find? fun f => f.letter == c

/-- The flags whose long names begin in some way. -/
def beginning (cs : List Char) : List Flag :=
  all.filter fun f => cs.isPrefixOf f.longName.toList

end Flag

/-- What the arguments amount to. -/
structure Options where
  /-- The file. -/
  file : Option String := none
  /-- Whether accounts of the work are asked for. -/
  verbose : Bool := false
  /-- Whether warnings are to be kept back. -/
  noWarnings : Bool := false
  deriving DecidableEq, Repr, Inhabited

/-- What is wrong with the arguments. -/
inductive OptionsFault where
  /-- A long name fits several flags. -/
  | ambiguous (argument : String) (flags : List Flag)
  /-- A flag was given a value. -/
  | unwantedValue (flag : Flag) (value : String)
  /-- Nothing takes the arguments. -/
  | unrecognized (arguments : List String)
  deriving DecidableEq, Repr

/-- The wording of a fault. -/
def OptionsFault.message : OptionsFault → String
  | .ambiguous argument flags =>
      "ambiguous option: " ++ argument ++ " could match "
        ++ ", ".intercalate (flags.map Flag.longName)
  | .unwantedValue flag value =>
      "argument " ++ flag.names ++ ": ignored explicit argument " ++ quoted value
  | .unrecognized arguments => "unrecognized arguments: " ++ " ".intercalate arguments

/-! ### Sorting -/

/-- An argument by its role. -/
inductive Argument where
  /-- A flag by its short name, with what is written right after it. -/
  | short (flag : Flag) (rest : Option (List Char))
  /-- A flag by its long name, with the value it is given. -/
  | long (flag : Flag) (value : Option (List Char))
  /-- What looks like a flag but is none. -/
  | unknown (text : String)
  /-- A file. -/
  | file (text : String)
  /-- The double dash after which every argument is a file. -/
  | separator
  deriving DecidableEq, Repr

/-- Splits characters at the first equals sign. -/
def splitAtEquals (cs : List Char) : List Char × Option (List Char) :=
  match cs.dropWhile (· != '=') with
  | [] => (cs, none)
  | _ :: value => (cs.takeWhile (· != '='), some value)

/-- Whether characters are a dash and decimal digits, or a dash and decimal digits with a
point before the last of them.  A single line end after them does not matter. -/
def isNegativeNumber (cs : List Char) : Bool :=
  match if cs.getLast? = some '\n' then cs.dropLast else cs with
  | '-' :: cs =>
      match cs.dropWhile isDecimalDigit with
      | [] => !cs.isEmpty
      | '.' :: decimals => !decimals.isEmpty && decimals.all isDecimalDigit
      | _ => false
  | _ => false

namespace Argument

/-- The role of an argument that fits no flag. -/
def ofUnfitting (cs : List Char) : Argument :=
  if isNegativeNumber cs || cs.contains ' ' then .file (String.ofList cs)
  else .unknown (String.ofList cs)

/-- The role of an argument with two dashes. -/
def ofLong (cs : List Char) : Except OptionsFault Argument :=
  let (name, value) := splitAtEquals cs
  match Flag.all.find? fun f => f.longName.toList == name with
  | some flag => .ok (.long flag value)
  | none =>
      match Flag.beginning name with
      | [] => .ok (ofUnfitting cs)
      | [flag] => .ok (.long flag value)
      | flags => .error (.ambiguous (String.ofList cs) flags)

/-- The role of an argument with one dash, from its first letter and the rest.  An equals
sign right after the letter is left out. -/
def ofShort (c : Char) (rest : List Char) : Argument :=
  match Flag.ofLetter? c, rest with
  | none, _ => ofUnfitting ('-' :: c :: rest)
  | some flag, [] => .short flag none
  | some flag, '=' :: value => .short flag (some value)
  | some flag, rest => .short flag (some rest)

/-- The role of an argument before the double dash. -/
def ofText (text : String) : Except OptionsFault Argument :=
  match text.toList with
  | '-' :: '-' :: cs => ofLong ('-' :: '-' :: cs)
  | '-' :: c :: rest => .ok (ofShort c rest)
  | _ => .ok (.file text)

/-- The roles of all arguments. -/
def sort : List String → Except OptionsFault (List Argument)
  | [] => .ok []
  | text :: rest =>
      if text = "--" then
        .ok (.separator :: rest.map .file)
      else do
        let a ← ofText text
        return a :: (← sort rest)

end Argument

/-! ### Taking arguments -/

/-- The flags written together after one dash: one whose letter has been read, and those
whose letters follow. -/
def flagsTogether (flag : Flag) : List Char → Except OptionsFault (List Flag)
  | [] => .ok [flag]
  | c :: cs =>
      match Flag.ofLetter? c with
      | none => .error (.unwantedValue flag (String.ofList (c :: cs)))
      | some next => do return flag :: (← flagsTogether next cs)

/-- What the arguments ask for. -/
inductive Request where
  /-- An explanation. -/
  | help
  /-- To run. -/
  | run (options : Options)
  deriving DecidableEq, Repr

/-- What has been taken so far. -/
structure Taking where
  /-- What the arguments amount to so far. -/
  options : Options := {}
  /-- Whether the place of the file is taken. -/
  filePassed : Bool := false
  /-- The arguments that nothing took, last first. -/
  left : List String := []
  deriving DecidableEq, Repr, Inhabited

namespace Taking

/-- Takes flags; nothing if one of them asks for help. -/
def flags (t : Taking) : List Flag → Option Taking
  | [] => some t
  | .help :: _ => none
  | .verbose :: rest => { t with options := { t.options with verbose := true } }.flags rest
  | .noWarnings :: rest => { t with options := { t.options with noWarnings := true } }.flags rest

/-- Takes a file. -/
def file (t : Taking) (text : String) : Taking :=
  { t with options := { t.options with file := some text }, filePassed := true }

/-- Leaves an argument. -/
def leave (t : Taking) (text : String) : Taking := { t with left := text :: t.left }

/-- What all arguments amount to, once they are taken. -/
def request (t : Taking) : Except OptionsFault Request :=
  if t.left.isEmpty then .ok (.run t.options) else .error (.unrecognized t.left.reverse)

/-- Takes arguments in order.  The place of the file takes a double dash along with it,
before the file or after it, and a double dash alone leaves it empty. -/
def arguments (t : Taking) : List Argument → Except OptionsFault Request
  | [] => t.request
  | .short flag (some []) :: _ => .error (.unwantedValue flag "")
  | .short flag rest :: as => do
      match t.flags (← flagsTogether flag (rest.getD [])) with
      | none => return .help
      | some t => t.arguments as
  | .long flag (some value) :: _ => .error (.unwantedValue flag (String.ofList value))
  | .long flag none :: as =>
      match t.flags [flag] with
      | none => .ok .help
      | some t => t.arguments as
  | .unknown text :: as => (t.leave text).arguments as
  | .separator :: .file text :: as =>
      if t.filePassed then ((t.leave "--").leave text).arguments as
      else (t.file text).arguments as
  | .separator :: as =>
      if t.filePassed then (t.leave "--").arguments as
      else { t with filePassed := true }.arguments as
  | .file text :: .separator :: as =>
      if t.filePassed then ((t.leave text).leave "--").arguments as
      else (t.file text).arguments as
  | .file text :: as =>
      if t.filePassed then (t.leave text).arguments as else (t.file text).arguments as

end Taking

/-- What the arguments of a command line ask for. -/
def Request.ofArguments (texts : List String) : Except OptionsFault Request := do
  Taking.arguments {} (← Argument.sort texts)

end LoxLang
