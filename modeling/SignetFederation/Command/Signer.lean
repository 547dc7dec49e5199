import SignetFederation.Command.Help

/-!
# The signer's command line

The commands of a signer's tool with their options, and how a command line becomes one of them.
Options that all commands share stand before the command's name.

`crates/quorum-signer/src/main.rs`:

| here | there |
| --- | --- |
| `Signer.shared` | `Cli` (`main.rs:36-51`) |
| `Task`, `Signer.commands` | `Commands` (`main.rs:54-121`) |
| `Signer.standardThreshold` | `DEFAULT_THRESHOLD` (`quorum-core/src/lib.rs:45`) |
| `Signer.standardSigners` | `DEFAULT_SIGNERS` (`quorum-core/src/lib.rs:48`) |
-/

namespace SignetFederation.Command

/-- What the tool is asked to do. -/
inductive Task where
  | keygen (signers : Nat)
  | describe (threshold : Nat) (keys : Option String)
  | genpsbt (block : String)
  | sign (psbt : String)
  | combine (psbts : List String)
  | solution (psbt : String)
  | embed (block psbt : String)
  | relay (block : String) (timeout : Nat)
  | info
  deriving DecidableEq

/-- A task with the options that all tasks share. -/
structure Invocation where
  relay : String
  directory : String
  descriptor : Option String
  task : Task
  deriving DecidableEq

/-- Why a command line is no invocation: it asks for a text to be shown, or is wrong. -/
inductive Refusal where
  | shown (text : String)
  | usage
  deriving DecidableEq

namespace Signer

/-- The name of the tool. -/
def toolName : String := "quorum-signer"

/-- The version of the tool. -/
def version : String := "0.1.0"

/-- The options that all commands share. -/
def shared : CommandSpec where
  name := toolName
  about := "M-of-N taproot quorum signer for signet blocks"
  options := [
    ⟨"relay", some 'r', some .any, false, false, some "http://127.0.0.1:8080", some "RELAY_URL",
      "Relay service URL"⟩,
    ⟨"dest", some 'd', some .path, false, false, some "./data", some "DEST",
      "Data directory for key files and descriptors"⟩,
    ⟨"descriptor", none, some .any, false, false, none, some "SIGNER_DESCRIPTOR",
      "Quorum descriptor (may hold this signer's private key)"⟩]
  words := none
  version := some version

/-- A command with some options. -/
def command (name about : String) (options : List OptionSpec) : CommandSpec :=
  ⟨name, about, options, none, none⟩

/-- An option with a numeric value. -/
def numberOption (name : String) (letter : Option Char) (standard : Nat) (about : String) :
    OptionSpec :=
  ⟨name, letter, some .number, false, false, some (toString standard), none, about⟩

/-- An option that must be given. -/
def requiredOption (name : String) (letter : Char) (about : String) : OptionSpec :=
  ⟨name, some letter, some .any, false, true, none, none, about⟩

/-- The number of signers that keys are made for. -/
def standardSigners : Nat := 100

/-- The number of signatures that a quorum needs. -/
def standardThreshold : Nat := 10

/-- The seconds to wait for signatures. -/
def standardTimeout : Nat := 60

/-- The option for a block. -/
def blockOption (about : String) : OptionSpec := requiredOption "block" 'b' about

/-- The option for a PSBT. -/
def psbtOption (about : String) : OptionSpec := requiredOption "psbt" 'p' about

/-- The commands. -/
def commands : List CommandSpec := [
  command "keygen" "Generate key pairs for the internal key and every signer"
    [numberOption "n" (some 'n') standardSigners "Number of multi_a signers"],
  command "descriptor" "Build the quorum descriptor and per-signer views from a key file"
    [numberOption "t" (some 't') standardThreshold "Threshold (M-of-N)",
      ⟨"keys", some 'k', some .path, false, false, none, none,
        "Key file (defaults to <dest>/keys.json)"⟩],
  command "genpsbt" "Create the PSBT authorizing a block"
    [blockOption "Block (hex or path to a hex file)"],
  command "sign" "Add this signer's signature to a PSBT"
    [psbtOption "PSBT (base64 or path to a base64 file)"],
  { command "combine" "Merge partially signed PSBTs" [] with
    words := some ⟨"psbts", "PSBTs (base64 or paths)"⟩ },
  command "solution" "Extract the signet solution of a signed PSBT" [psbtOption ""],
  command "embed" "Embed the solution of a signed PSBT into its block"
    [blockOption "", psbtOption ""],
  command "relay" "Run a signing round for a block over the relay network"
    [blockOption "", numberOption "timeout" none standardTimeout "Seconds to wait for signatures"],
  command "info" "Show descriptor info" []]

/-- The command of a name. -/
def command? (name : String) : Option CommandSpec := commands.find? fun c => c.name == name

/-- The task of a command with what was given to it. -/
def taskOf (name : String) (g : Given) : Option Task :=
  match name with
  | "keygen" => some (.keygen ((g.number? "n").getD standardSigners))
  | "descriptor" => some (.describe ((g.number? "t").getD standardThreshold) (g.value? "keys"))
  | "genpsbt" => do return .genpsbt (← g.value? "block")
  | "sign" => do return .sign (← g.value? "psbt")
  | "combine" => some (.combine g.words)
  | "solution" => do return .solution (← g.value? "psbt")
  | "embed" => do return .embed (← g.value? "block") (← g.value? "psbt")
  | "relay" =>
    do return .relay (← g.value? "block") ((g.number? "timeout").getD standardTimeout)
  | "info" => some .info
  | _ => none

/-- The help text of a command, or of the tool itself. -/
def helpOf : Option CommandSpec → String
  | none => shared.help toolName commands
  | some c => c.help (toolName ++ " " ++ c.name) []

/-- What to do when the reading of words for a command stops. -/
def refuse (c : Option CommandSpec) : Stop → Refusal
  | .help => .shown (helpOf c)
  | .version => .shown (toolName ++ " " ++ version ++ "\n")
  | .usage => .usage

/-- The help that is asked for by the names of commands. -/
def helpFor : List String → Refusal
  | [] => .shown (helpOf none)
  | [name] =>
    match command? name with
    | some c => .shown (helpOf (some c))
    | none => .usage
  | _ => .usage

/-- The invocation that a command line writes. -/
def invocation (environment : String → Option String) (line : List String) :
    Except Refusal Invocation := do
  let names := "help" :: commands.map CommandSpec.name
  let (g, name, rest) ← (splitCommand shared names environment line).mapError (refuse none)
  if name = "help" then throw (helpFor rest)
  let some c := command? name | throw .usage
  let own ← (c.readAll environment rest).mapError (refuse (some c))
  let some task := taskOf name own | throw .usage
  return ⟨(g.value? "relay").getD "http://127.0.0.1:8080", (g.value? "dest").getD "./data",
    g.value? "descriptor", task⟩

end Signer

end SignetFederation.Command
