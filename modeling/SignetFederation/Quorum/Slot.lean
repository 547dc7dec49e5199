/-!
# Signer slots

A quorum has one slot for the taproot internal key and one for each key of the leaf script. Key
lists put the internal key first, so a slot has a place in them. Main statements: `keyIndex` and
`ofKeyIndex` undo each other.

`crates/quorum-core/src/types.rs`:

| here | there |
| --- | --- |
| `Slot` | `SignerSlot` (`types.rs:71-76`) |
| `Slot.keyIndex` | `SignerSlot::key_index` (`types.rs:80-85`) |
| `Slot.ofKeyIndex` | `SignerSlot::from_key_index` (`types.rs:88-93`) |
| `Slot.text` | its `Display` (`types.rs:96-103`) |
-/

namespace SignetFederation

/-- The place of a signer in a quorum. -/
inductive Slot where
  | keyPath
  | script (i : Nat)
  deriving DecidableEq

namespace Slot

/-- The place in a key list that begins with the internal key. -/
def keyIndex : Slot → Nat
  | keyPath => 0
  | script i => i + 1

/-- The slot at a place in a key list. -/
def ofKeyIndex : Nat → Slot
  | 0 => keyPath
  | i + 1 => script i

/-- The slot in words. -/
def text : Slot → String
  | keyPath => "key-path slot"
  | script i => "script slot " ++ toString i

/-- The slot by the name of its constructor. -/
def name : Slot → String
  | keyPath => "KeyPath"
  | script i => "Script(" ++ toString i ++ ")"

@[simp] theorem ofKeyIndex_keyIndex (s : Slot) : ofKeyIndex s.keyIndex = s := by
  cases s <;> rfl

@[simp] theorem keyIndex_ofKeyIndex (n : Nat) : (ofKeyIndex n).keyIndex = n := by
  cases n <;> rfl

end Slot

end SignetFederation
