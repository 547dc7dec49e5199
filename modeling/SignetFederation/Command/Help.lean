import SignetFederation.Command.Line

/-!
# Help texts

The help text of a command tells what it is for, how it is called, and lists its commands, words and
options in columns. An option's environment variable and standard value stand behind its
explanation.
-/

namespace SignetFederation.Command

/-- A text in upper case with underscores for dashes: how a value is named in help texts. -/
def valueName (name : String) : String :=
  "<" ++ String.ofList (name.toList.map fun c => if c = '-' then '_' else c.toUpper) ++ ">"

/-- How an option is written. -/
def OptionSpec.shown (o : OptionSpec) : String :=
  (match o.letter with
    | some l => "-" ++ String.singleton l ++ ", "
    | none => "    ") ++
    "--" ++ o.name ++ (if o.value.isSome then " " ++ valueName o.name else "")

/-- The explanation of an option. -/
def OptionSpec.explained (o : OptionSpec) : String :=
  let notes := (o.environment.toList.map fun e => "[env: " ++ e ++ "=]") ++
    (o.standard.toList.map fun d => "[default: " ++ d ++ "]")
  " ".intercalate ((if o.about = "" then [] else [o.about]) ++ notes)

/-- Rows of two columns. -/
def columns (rows : List (String × String)) : String :=
  let width := rows.foldl (fun w r => max w r.1.length) 0
  rows.foldl (fun out r =>
    out ++ "  " ++ r.1 ++ String.ofList (List.replicate (width - r.1.length + 2) ' ') ++ r.2 ++ "\n")
    ""

/-- Rows of two columns under a title, unless there are none. -/
def titled (title : String) (rows : List (String × String)) : String :=
  if rows.isEmpty then "" else "\n" ++ title ++ ":\n" ++ columns rows

namespace CommandSpec

/-- How plain words are written. -/
def wordsShown (w : WordsSpec) : String := valueName w.name ++ "..."

/-- How a command is called. -/
def usage (c : CommandSpec) (path : String) (hasCommands : Bool) : String :=
  " ".intercalate (["Usage:", path] ++
    (if c.options.any fun o => !o.required then ["[OPTIONS]"] else []) ++
    ((c.options.filter OptionSpec.required).map fun o => "--" ++ o.name ++ " " ++ valueName o.name) ++
    (c.words.toList.map wordsShown) ++ (if hasCommands then ["<COMMAND>"] else []))

/-- The options of a command, those for help and the version included. -/
def optionRows (c : CommandSpec) : List (String × String) :=
  (c.options.map fun o => (o.shown, o.explained)) ++ [("-h, --help", "Print help")] ++
    (if c.version.isSome then [("-V, --version", "Print version")] else [])

/-- The help text of a command that is called by `path` and has some commands. -/
def help (c : CommandSpec) (path : String) (commands : List CommandSpec) : String :=
  let commandRows := commands.map fun s => (s.name, s.about)
  c.about ++ "\n\n" ++ c.usage path (!commands.isEmpty) ++ "\n" ++
    titled "Commands" (if commands.isEmpty then [] else
      commandRows ++ [("help", "Print this message or the help of the given subcommand(s)")]) ++
    titled "Arguments" (c.words.toList.map fun w => (wordsShown w, w.about)) ++
    titled "Options" c.optionRows

end CommandSpec

end SignetFederation.Command
