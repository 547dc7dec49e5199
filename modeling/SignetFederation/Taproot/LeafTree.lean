import SignetFederation.Taproot.Tree

/-!
# Trees of leaves

A tree of scripts is written as its leaves with their depths, in the order in which a walk from left
to right meets them. Reading puts the tree together on a branch that holds, for each depth down to
the deepest, the finished left neighbour that waits there, if any. Of two neighbours the one with
the lesser hash is written first.
-/

namespace SignetFederation

/-- A leaf with its depth. -/
structure TapLeaf where
  depth : Nat
  version : UInt8
  script : Bytes
  deriving DecidableEq

namespace LeafTree

/-- A finished part of the tree: its hash, and its leaves with their depths below it. -/
structure Node where
  hash : Digest
  leaves : List TapLeaf

/-- The node over two neighbours. -/
def Node.combine (a b : Node) : Node :=
  let (first, second) := if Bytes.lex a.hash.toBytes b.hash.toBytes = .lt then (a, b) else (b, a)
  ⟨Taproot.branchHash a.hash b.hash,
    (first.leaves ++ second.leaves).map fun l => { l with depth := l.depth + 1 }⟩

/-- The nodes that wait on a branch, the deepest first. -/
abbrev Branch := List (Option Node)

/-- Puts a node at a depth; neighbours that are both finished become one node a level higher. A
second node at the root is refused. -/
def attach (node : Node) : (depth : Nat) → Branch → Option Branch
  | depth, branch =>
    if branch.length = depth + 1 then
      match branch, depth with
      | some child :: rest, d + 1 => attach (node.combine child) d rest
      | some _ :: _, 0 => none
      | none :: rest, _ => some (some node :: rest)
      | [], _ => none
    else some (some node :: (List.replicate (depth - branch.length) none ++ branch))
termination_by depth => depth

/-- Adds a leaf. A leaf above an unfinished deeper part is refused, as is one too deep. -/
def addLeaf (branch : Branch) (l : TapLeaf) : Option Branch :=
  if l.depth > ControlBlock.depthLimit ∨ l.depth + 1 < branch.length then none
  else attach ⟨Taproot.leafHash l.version l.script, [{ l with depth := 0 }]⟩ l.depth branch

/-- The leaves in written order, if they make up one tree. -/
def ordered? (leaves : List TapLeaf) : Option (List TapLeaf) := do
  match ← leaves.foldlM addLeaf [] with
  | [some root] => return root.leaves
  | _ => none

/-- The serialized form of a row of leaves. -/
def encode (leaves : List TapLeaf) : Bytes :=
  leaves.flatMap fun l => UInt8.ofNat l.depth :: l.version :: CompactSize.encodeBytes l.script

/-- The leaves that a byte string writes one after another, at most `fuel` of them. -/
def readLeaves : (fuel : Nat) → (acc : List TapLeaf) → Bytes → Option (List TapLeaf)
  | _, acc, [] => some acc.reverse
  | fuel + 1, acc, depth :: version :: rest => do
    guard (ControlBlock.isLeafVersion version)
    let (script, rest) ← (CompactSize.boundedBytes rest).toOption
    readLeaves fuel (⟨depth.toNat, version, script⟩ :: acc) rest
  | _, _, _ => none

/-- The leaves in written order that a byte string writes, if they make up one tree. -/
def decode? (b : Bytes) : Option (List TapLeaf) := (readLeaves b.length [] b).bind ordered?

end LeafTree

end SignetFederation
