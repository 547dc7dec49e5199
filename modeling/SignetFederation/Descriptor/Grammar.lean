import SignetFederation.Descriptor.Checksum
import SignetFederation.Text.Decimal

/-!
# The form of a descriptor

A descriptor's body is `tr(I,multi_a(M,K,…))`: an internal key expression, a threshold and the key
expressions of the leaf, none of which holds a comma.

`crates/quorum-core/src/quorum/descriptor.rs`:

| here | there |
| --- | --- |
| `Parts` | `DescriptorParts` (`descriptor.rs:95-99`) |
| `parts` | `parse_parts` (`descriptor.rs:102-136`) |
| `Parts.render` | `render` (`descriptor.rs:139-147`) |
-/

namespace SignetFederation.Descriptor

/-- The threshold and the key expressions of a descriptor. -/
structure Parts where
  internal : String
  threshold : Nat
  keys : List String
  deriving DecidableEq

/-- What a text holds between a beginning and a last character. -/
def between (start : String) (last : Char) (cs : List Char) : Option (List Char) :=
  (Text.afterStart? start.toList cs).bind (Text.beforeLast? last)

/-- The parts of a body. -/
def parts (body : String) : Except Fault Parts := do
  let some inner := between "tr(" ')' body.toList | throw (.notFunction body)
  let some (internal, leaf) := Text.cutFirst ',' inner | throw .noLeaf
  let some args := between "multi_a(" ')' leaf | throw (.notMultiA (String.ofList leaf))
  match Text.fields ',' args with
  | [] => throw (.badThreshold "")
  | first :: keys =>
    match Decimal.read? Decimal.bound64 first with
    | none => throw (.badThreshold (String.ofList first))
    | some threshold => return ⟨String.ofList internal, threshold, keys.map String.ofList⟩

/-- The body with the given parts. -/
def Parts.render (p : Parts) : String :=
  "tr(" ++ p.internal ++ ",multi_a(" ++ toString p.threshold ++
    p.keys.foldl (fun out key => out ++ "," ++ key) "" ++ "))"

end SignetFederation.Descriptor
