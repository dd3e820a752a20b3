import TagBox.Text.Blank

/-!
# Arguments of a command

The options of the command line of yorbox (its specification, §10.6).

Options are written `--name value`, `--name=value`, `-n value`, `-nvalue` or `-n=value`, and short flags
can be grouped.  A value of its own may be a single dash, but does not start with one otherwise.

* `Flag` — what an argument can set, with its names.
* `Flag.readAll` — the flags that a list of arguments gives, with their values.
-/

namespace TagBox

/-- What an argument can set. -/
inductive Flag where
  | dir
  | config
  | toggleName
  | boxTemplate
  | oldBoxTemplate
  | tagsPrefix
  | ignore
  | verbose
  | check
  | recursive
  | format
  deriving DecidableEq, Repr

namespace Flag

/-- The long name. -/
def long : Flag → String
  | .dir => "dir"
  | .config => "config"
  | .toggleName => "toggle-name"
  | .boxTemplate => "box-template"
  | .oldBoxTemplate => "old-box-template"
  | .tagsPrefix => "tags-prefix"
  | .ignore => "ignore"
  | .verbose => "verbose"
  | .check => "check"
  | .recursive => "recursive"
  | .format => "format"

/-- The short name. -/
def short? : Flag → Option Char
  | .dir => some 'd'
  | .config => some 'c'
  | .verbose => some 'v'
  | .recursive => some 'r'
  | .format => some 'f'
  | _ => none

/-- Does the flag have a value? -/
def hasValue : Flag → Bool
  | .verbose | .check | .recursive => false
  | _ => true

/-- May the flag be given more than once? -/
def isRepeatable (flag : Flag) : Bool :=
  flag == .ignore

/-- May the flag have this value? -/
def accepts (value : Text) : Flag → Bool
  | .dir | .config => !value.isEmpty
  | .format => value == "text".toList || value == "json".toList
  | _ => true

/-- The flags of every command. -/
def common : List Flag :=
  [.dir, .config, .toggleName, .boxTemplate, .oldBoxTemplate, .tagsPrefix, .ignore, .verbose]

/-- The flags of a command that revises files. -/
def running : List Flag :=
  common ++ [.check, .recursive, .format]

/-- A flag that was given, with its value. -/
structure Given where
  flag : Flag
  value : Text := []
  deriving DecidableEq, Repr

/-- What one argument gives: flags, and perhaps one that waits for its value. -/
structure Reading where
  given : List Given
  waiting : Option Flag := none
  deriving DecidableEq, Repr

/-- The argument `--name` or `--name=value`, without its dashes. -/
def readLong (allowed : List Flag) (t : Text) : Option Reading :=
  let name := t.takeWhile (· ≠ '=')
  match allowed.find? fun flag => flag.long.toList == name, t.drop name.length with
  | none, _ => none
  | some flag, [] =>
    if flag.hasValue then some { given := [], waiting := some flag } else some { given := [⟨flag, []⟩] }
  | some flag, _ :: value => if flag.hasValue then some { given := [⟨flag, value⟩] } else none

/-- Short flags in one argument, without the dash.  A flag with a value takes all that follows. -/
def readShort (allowed : List Flag) : Text → Option Reading
  | [] => some { given := [] }
  | c :: rest =>
    match allowed.find? fun flag => flag.short? == some c with
    | none => none
    | some flag =>
      if flag.hasValue then
        match rest with
        | [] => some { given := [], waiting := some flag }
        | '=' :: value => some { given := [⟨flag, value⟩] }
        | value => some { given := [⟨flag, value⟩] }
      else
        (readShort allowed rest).map fun reading => { reading with given := ⟨flag, []⟩ :: reading.given }

/-- One argument that names flags. -/
def readOne (allowed : List Flag) : Text → Option Reading
  | '-' :: '-' :: rest => readLong allowed rest
  | '-' :: c :: rest => readShort allowed (c :: rest)
  | _ => none

/-- May the text be a value of its own? -/
def isValue (t : Text) : Bool :=
  t == ['-'] || t.head? != some '-'

/-- Read arguments; the first one may be the value that a flag waits for.  Two dashes may end the
arguments. -/
def readFrom (allowed : List Flag) : Option Flag → List Text → Option (List Given)
  | none, [] => some []
  | some _, [] => none
  | some flag, value :: more =>
    if isValue value then (readFrom allowed none more).map (⟨flag, value⟩ :: ·) else none
  | none, argument :: more =>
    if argument = ['-', '-'] then (if more = [] then some [] else none)
    else
      match readOne allowed argument with
      | none => none
      | some reading => (readFrom allowed reading.waiting more).map (reading.given ++ ·)

/-- The values that were given for a flag. -/
def valuesOf (flag : Flag) (given : List Given) : List Text :=
  (given.filter fun g => g.flag = flag).map Given.value

/-- Is a flag given as often as it may be, and with values that it accepts? -/
def isValid (given : List Given) (g : Given) : Bool :=
  g.flag.accepts g.value && (g.flag.isRepeatable || (valuesOf g.flag given).length == 1)

/-- The flags that arguments give, if they are all in order. -/
def readAll (allowed : List Flag) (arguments : List Text) : Option (List Given) :=
  (readFrom allowed none arguments).filter fun given => given.all (isValid given)

end Flag

end TagBox
