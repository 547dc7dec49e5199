import SignetFederation.Command.Tasks

/-!
# The signer's tool

The outer layer of the tool: it fetches what a task reads, lets the task run, and carries out what
the task answers. This is `main` of `crates/quorum-signer/src/main.rs` (`:134-182`).
-/

open SignetFederation
open SignetFederation.Command

/-- The content of a file, if it can be read. -/
def readIfThere (name : String) : IO (Option String) := do
  if !Files.namesFile name then return none
  try return some (← IO.FS.readFile name) catch _ => return none

/-- The values of environment variables that are set. -/
def readEnvironment : IO (List (String × String)) :=
  (Signer.shared.options.filterMap OptionSpec.environment).filterMapM fun name => do
    return (← IO.getEnv name).map fun value => (name, value)

/-- Random seeds of 32 bytes each. -/
def readSeeds (count : Nat) : IO (Nat → Bytes) := do
  let random ← IO.getRandomBytes (USize.ofNat (32 * count))
  return fun k => (random.extract (32 * k) (32 * k + 32)).data.toList

/-- Makes the directory and writes the files of a report. -/
def carryOut (r : Report) : IO Unit := do
  if let some directory := r.directory then IO.FS.createDirAll directory
  for (name, content) in r.files do IO.FS.writeFile name content

/-- Runs an invocation. -/
def perform (i : Invocation) : IO Completion := do
  let found ← (Signer.names i).filterMapM fun name => do
    return (← readIfThere name).map fun content => (name, content)
  match Signer.run (fun name => found.lookup name) (← readSeeds (Signer.seedCount i)) i with
  | .error why => return .failed why
  | .ok report =>
    try
      carryOut report
      return .done report.output
    catch _ => return .failed .unwritable

/-- Runs a command line. -/
def main (line : List String) : IO UInt32 := do
  let environment ← readEnvironment
  let completion ← match Signer.invocation (fun name => environment.lookup name) line with
    | .error why => pure (Completion.refused why)
    | .ok i => perform i
  IO.print completion.output
  if let some complaint := completion.complaint then IO.eprintln ("Error: " ++ complaint)
  return UInt32.ofNat completion.code
