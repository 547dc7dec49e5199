import SignetFederation.Text.Decimal
import SignetFederation.Text.Fields

/-!
# Command lines

A command takes flags, options with a value and plain words. An option is named by its long name
behind two dashes or by its letter behind one; its value follows in the next word, or in the same
one, after `=` or, behind the letter, at once. Flags' letters may share a word. A word `--` ends
the options. An option that is not given is looked up in the environment. No option comes twice,
unless it may be repeated.

The words are read from the left, and the first thing that is wrong, or the first request for help,
ends the reading.
-/

namespace SignetFederation.Command

/-- What may stand for a value. -/
inductive ValueKind where
  | any
  | path
  | number
  | oneOf (names : List String)
  deriving DecidableEq

/-- Whether a text is a value of a kind. -/
def ValueKind.accepts (k : ValueKind) (s : String) : Bool :=
  match k with
  | any => true
  | path => s ≠ ""
  | number => (Decimal.read? Decimal.bound64 s.toList).isSome
  | oneOf names => names.contains s

/-- An option of a command. -/
structure OptionSpec where
  name : String
  letter : Option Char
  /-- The kind of its value; a flag has none. -/
  value : Option ValueKind
  repeats : Bool
  required : Bool
  standard : Option String
  environment : Option String
  about : String
  deriving DecidableEq

/-- Plain words that a command takes, at least one. -/
structure WordsSpec where
  name : String
  about : String
  deriving DecidableEq

/-- A command without its commands. -/
structure CommandSpec where
  name : String
  about : String
  options : List OptionSpec
  words : Option WordsSpec
  /-- The version to show on request. -/
  version : Option String
  deriving DecidableEq

/-- Why the words are not read to their end. -/
inductive Stop where
  | help
  | version
  | usage
  deriving DecidableEq

/-- The options and words that were read, in their order. -/
structure Given where
  options : List (String × String)
  words : List String
  deriving DecidableEq

namespace Given

/-- The value of an option. -/
def value? (g : Given) (name : String) : Option String := g.options.lookup name

/-- All values of an option that may be repeated. -/
def values (g : Given) (name : String) : List String :=
  (g.options.filter fun e => e.1 == name).map Prod.snd

/-- Whether an option or flag was given. -/
def has (g : Given) (name : String) : Bool := (g.value? name).isSome

/-- The numeric value of an option. -/
def number? (g : Given) (name : String) : Option Nat :=
  (g.value? name).bind fun s => Decimal.read? Decimal.bound64 s.toList

end Given

namespace CommandSpec

/-- The option of a long name. -/
def option? (c : CommandSpec) (name : String) : Option OptionSpec :=
  c.options.find? fun o => o.name == name

/-- The option of a letter. -/
def letter? (c : CommandSpec) (letter : Char) : Option OptionSpec :=
  c.options.find? fun o => o.letter == some letter

/-- What was given, with one more option. -/
def add (o : OptionSpec) (value : String) (g : Given) : Except Stop Given :=
  if !(o.value.all fun k => k.accepts value) then .error .usage
  else if !o.repeats && g.has o.name then .error .usage
  else .ok { g with options := g.options ++ [(o.name, value)] }

/-- Reads a word of letters; an option at its end may wait for its value in the next word. -/
def letters (c : CommandSpec) : List Char → Given → Except Stop (Given × Option OptionSpec)
  | [], g => .ok (g, none)
  | l :: rest, g =>
    match c.letter? l with
    | some o =>
      match o.value, rest with
      | none, _ =>
        match add o "" g with
        | .ok g => letters c rest g
        | .error why => .error why
      | some _, [] => .ok (g, some o)
      | some _, '=' :: value => (add o (String.ofList value) g).map fun g => (g, none)
      | some _, value => (add o (String.ofList value) g).map fun g => (g, none)
    | none =>
      if l = 'h' then .error .help
      else if l = 'V' ∧ c.version.isSome then .error .version
      else .error .usage

/-- Reads a long name, with the value in the same word if there is one. -/
def long (c : CommandSpec) (name : String) (value : Option String) (g : Given) :
    Except Stop (Given × Option OptionSpec) :=
  match c.option? name, value with
  | some o, none =>
    if o.value.isSome then .ok (g, some o) else (add o "" g).map fun g => (g, none)
  | some o, some value =>
    if o.value.isSome then (add o value g).map fun g => (g, none) else .error .usage
  | none, none =>
    if name = "help" then .error .help
    else if name = "version" ∧ c.version.isSome then .error .version
    else .error .usage
  | none, some _ => .error .usage

/-- Reads a word that begins with a dash. -/
def dashed (c : CommandSpec) (word : List Char) (g : Given) :
    Except Stop (Given × Option OptionSpec) :=
  match word with
  | '-' :: body =>
    match Text.cutFirst '=' body with
    | some (name, value) => c.long (String.ofList name) (some (String.ofList value)) g
    | none => c.long (String.ofList body) none g
  | body => c.letters body g

/-- What was given, with plain words at the end. -/
def addWords (c : CommandSpec) (words : List String) (g : Given) : Except Stop Given :=
  if words = [] ∨ c.words.isSome then .ok { g with words := g.words ++ words } else .error .usage

/-- Reads words up to their end, or up to a plain word that `isCommand` knows, which is left with
the words after it. An option may wait for its value. -/
def readWords (c : CommandSpec) (isCommand : String → Bool) :
    (waiting : Option OptionSpec) → List String → Given → Except Stop (Given × List String)
  | some _, [], _ => .error .usage
  | none, [], g => .ok (g, [])
  | waiting, word :: rest, g =>
    match word.toList, waiting with
    | ['-', '-'], some _ => .error .usage
    | ['-', '-'], none => (c.addWords rest g).map fun g => (g, [])
    | '-' :: _ :: _, some _ => .error .usage
    | '-' :: l :: body, none =>
      match c.dashed (l :: body) g with
      | .ok (g, waiting) => readWords c isCommand waiting rest g
      | .error why => .error why
    | _, some o =>
      match add o word g with
      | .ok g => readWords c isCommand none rest g
      | .error why => .error why
    | _, none =>
      if isCommand word then .ok (g, word :: rest)
      else
        match c.addWords [word] g with
        | .ok g => readWords c isCommand none rest g
        | .error why => .error why

/-- What was given, with the options that the environment gives. -/
def addEnvironment (environment : String → Option String) :
    List OptionSpec → Given → Except Stop Given
  | [], g => .ok g
  | o :: rest, g =>
    match o.environment.bind environment with
    | some value =>
      if g.has o.name then addEnvironment environment rest g
      else
        match add o value g with
        | .ok g => addEnvironment environment rest g
        | .error why => .error why
    | none => addEnvironment environment rest g

/-- Whether all that must be given was given. -/
def isSatisfied (c : CommandSpec) (g : Given) : Bool :=
  (c.options.all fun o => !o.required || g.has o.name) && (c.words.isNone || g.words ≠ [])

/-- What is given to a command, up to a word that `isCommand` knows. -/
def read (c : CommandSpec) (isCommand : String → Bool) (environment : String → Option String)
    (words : List String) : Except Stop (Given × List String) := do
  let (g, rest) ← c.readWords isCommand none words ⟨[], []⟩
  let g ← addEnvironment environment c.options g
  if c.isSatisfied g then return (g, rest) else throw .usage

/-- What is given to a command that has no commands of its own. -/
def readAll (c : CommandSpec) (environment : String → Option String) (words : List String) :
    Except Stop Given :=
  (c.read (fun _ => false) environment words).map Prod.fst

end CommandSpec

/-- The words of a command line after the name of a command, and what was given before it; without
such a word the line is wrong. -/
def splitCommand (c : CommandSpec) (names : List String) (environment : String → Option String)
    (words : List String) : Except Stop (Given × String × List String) := do
  match ← c.read names.contains environment words with
  | (g, name :: rest) => return (g, name, rest)
  | (_, []) => throw .usage

end SignetFederation.Command
