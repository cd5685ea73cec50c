import ApiAnnotations.Format

/-! # The command line

Arguments are read from left to right. An option takes the argument after it as its value, or what
is attached to it; a value on its own is looked at when the next known option begins, or at the end.
The first problem ends the reading.

* `Arguments.parse` reads the arguments of the program.
* `Arguments.withPlainExtensions` drops the points before extensions. -/

namespace ApiAnnotations

structure Arguments where
  source : Text
  output : Option Text
  format : Format
  init : Bool
  extensions : List Text
  verbose : Bool
deriving DecidableEq

inductive ValueOption
  | source
  | output
  | format
  | extension
deriving DecidableEq

/-- An option without a value. -/
inductive Switch
  | init
  | verbose
  | help
  | version
deriving DecidableEq

inductive ArgumentOption
  | valued (o : ValueOption)
  | switch (s : Switch)
deriving DecidableEq

namespace ArgumentOption

def ofName? (name : Text) : Option ArgumentOption :=
  if name = "source".toList then some (.valued .source)
  else if name = "output".toList then some (.valued .output)
  else if name = "format".toList then some (.valued .format)
  else if name = "ext".toList then some (.valued .extension)
  else if name = "init".toList then some (.switch .init)
  else if name = "verbose".toList then some (.switch .verbose)
  else if name = "help".toList then some (.switch .help)
  else if name = "version".toList then some (.switch .version)
  else none

def ofLetter? (letter : Char) : Option ArgumentOption :=
  if letter = 's' then some (.valued .source)
  else if letter = 'o' then some (.valued .output)
  else if letter = 'f' then some (.valued .format)
  else if letter = 'v' then some (.switch .verbose)
  else if letter = 'h' then some (.switch .help)
  else if letter = 'V' then some (.switch .version)
  else none

end ArgumentOption

inductive UsageError
  | unknownArgument
  | invalidValue
  | repeatedArgument
  | unexpectedValue
deriving DecidableEq

inductive CommandLineStop
  | usage (error : UsageError)
  | help (long : Bool)
  | version
deriving DecidableEq

namespace Arguments

structure Given where
  source : Option Text
  output : Option Text
  format : Option Format
  init : Bool
  extensions : List Text
  verbose : Bool
deriving DecidableEq

/-- The state between two arguments: what was given, and the last option with its value, if that has
been met. -/
structure State where
  given : Given
  pending : Option (ValueOption × Option Text)
deriving DecidableEq

abbrev Reading (α : Type) := Except CommandLineStop α

def refuse {α : Type} (e : UsageError) : Reading α := .error (.usage e)

/-- Gives a path that may be given once and must not be empty. -/
def givePath (previous : Option Text) (value : Text) : Reading (Option Text) :=
  if previous.isSome then refuse .repeatedArgument
  else if value.isEmpty then refuse .invalidValue
  else .ok (some value)

/-- Gives the format, which may be given once. -/
def giveFormat (previous : Option Format) (value : Text) : Reading (Option Format) :=
  if previous.isSome then refuse .repeatedArgument
  else
    match Format.ofName? value with
    | none => refuse .invalidValue
    | some f => .ok (some f)

def give (g : Given) (o : ValueOption) (value : Text) : Reading Given :=
  match o with
  | .source => (givePath g.source value).map (fun v => { g with source := v })
  | .output => (givePath g.output value).map (fun v => { g with output := v })
  | .format => (giveFormat g.format value).map (fun v => { g with format := v })
  | .extension => .ok { g with extensions := g.extensions ++ [value] }

def turnOn (g : Given) (s : Switch) (long : Bool) : Reading Given :=
  match s with
  | .init => if g.init then refuse .repeatedArgument else .ok { g with init := true }
  | .verbose => if g.verbose then refuse .repeatedArgument else .ok { g with verbose := true }
  | .help => .error (.help long)
  | .version => .error .version

def settle (state : State) : Reading Given :=
  match state.pending with
  | none => .ok state.given
  | some (_, none) => refuse .invalidValue
  | some (o, some value) => give state.given o value

/-- Meets an option, with the value attached to it. -/
def meetOption (state : State) (o : ValueOption) (attached : Option Text) : Reading State := do
  let g ← settle state
  match attached with
  | none => .ok ⟨g, some (o, none)⟩
  | some value => (give g o value).map (fun g => ⟨g, none⟩)

def meetSwitch (state : State) (s : Switch) (long : Bool) : Reading State := do
  let g ← settle state
  (turnOn g s long).map (fun g => ⟨g, none⟩)

/-- A text cut at its first equals sign. -/
def splitValue (s : Text) : Text × Option Text :=
  match s.span (· ≠ '=') with
  | (name, _ :: value) => (name, some value)
  | (name, []) => (name, none)

/-- Meets an argument that begins with two dashes, of which `s` is the rest. -/
def meetLong (state : State) (s : Text) : Reading State :=
  let (name, attached) := splitValue s
  match ArgumentOption.ofName? name, attached with
  | none, _ => refuse .unknownArgument
  | some (.valued o), attached => meetOption state o attached
  | some (.switch s), none => meetSwitch state s true
  | some (.switch _), some _ => refuse .unexpectedValue

/-- The value attached to a letter, without one equals sign. -/
def attachedValue : Text → Option Text
  | [] => none
  | '=' :: value => some value
  | value => some value

/-- Meets letters after one dash. An option takes all that follows it as its value. -/
def meetLetters (state : State) : Text → Reading State
  | [] => .ok state
  | letter :: rest =>
    match ArgumentOption.ofLetter? letter with
    | none => refuse .unknownArgument
    | some (.valued o) => meetOption state o (attachedValue rest)
    | some (.switch s) => do
      let state ← meetSwitch state s false
      meetLetters state rest

/-- Meets an argument that is not an option: it is the value that the pending option waits for, or
else it is unknown. -/
def meetValue (state : State) (value : Text) : Reading State :=
  match state.pending with
  | some (o, none) => .ok { state with pending := some (o, some value) }
  | _ => refuse .unknownArgument

def meet (state : State) (argument : Text) : Reading State :=
  match argument with
  | '-' :: '-' :: s => meetLong state s
  | ['-'] => meetValue state ['-']
  | '-' :: letters => meetLetters state letters
  | value => meetValue state value

/-- Meets all arguments. After two dashes alone nothing may follow. -/
def meetAll (state : State) : List Text → Reading Given
  | [] => settle state
  | argument :: rest =>
    if argument = ['-', '-'] then if rest.isEmpty then settle state else refuse .unknownArgument
    else do
      let state ← meet state argument
      meetAll state rest

/-- The source directory that is assumed. -/
def defaultSource : Text := ['.']

/-- The extensions that are assumed. -/
def defaultExtensions : List Text := ["go".toList]

/-- The arguments, with what is assumed for those not given. -/
def ofGiven (g : Given) : Arguments where
  source := g.source.getD defaultSource
  output := g.output
  format := g.format.getD .json
  init := g.init
  extensions := if g.extensions.isEmpty then defaultExtensions else g.extensions
  verbose := g.verbose

def parse (arguments : List Text) : Reading Arguments :=
  (meetAll ⟨⟨none, none, none, false, [], false⟩, none⟩ arguments).map ofGiven

/-- The extensions without points before them; nothing if all are empty. -/
def withPlainExtensions (a : Arguments) : Option Arguments :=
  let extensions := (a.extensions.map (fun e => e.dropWhile (· = '.'))).filter (fun e => !e.isEmpty)
  if extensions.isEmpty then none else some { a with extensions := extensions }

/-- What the arguments say, for the log. -/
def shown (a : Arguments) : Text :=
  let words := [
    "source=".toList ++ a.source,
    "output=".toList ++ a.output.getD [],
    "format=".toList ++ a.format.title,
    "init=".toList ++ (if a.init then "yes" else "no").toList,
    "ext=".toList ++ Text.joinWith [','] a.extensions,
    "verbose=".toList ++ (if a.verbose then "yes" else "no").toList]
  Text.joinWith [' '] words

end Arguments

end ApiAnnotations
