import SignetFederation.Keys.Extended
import SignetFederation.Quorum.Slot

/-!
# Key expressions

A key of a quorum is written as an x-only or compressed public key in hexadecimal, as a secret key
for wallet import, or as an extended key with derivation steps behind it; a key origin in brackets
may stand before it. An expression names one public key and may hold its secret key.

`crates/quorum-core/src/quorum/keys.rs`:

| here | there |
| --- | --- |
| `KeyExpression` | `KeyExpr` (`keys.rs:17-22`) |
| `KeyExpression.parse` | `parse_key` (`keys.rs:32-110`) |
| `KeyExpression.ofExtendedPublic` | its branch for public extended keys (`keys.rs:47-59`) |
| `KeyExpression.ofExtendedSecret` | its branch for secret extended keys (`keys.rs:61-74`) |
| `KeyExpression.ofHex` | its branches for hexadecimal keys (`keys.rs:83-102`) |
| `KeyExpression.walletImport?` | its last branch (`keys.rs:104-109`) |
| `KeyExpression.withoutOrigin` | `strip_origin` (`keys.rs:112-124`) |
| `KeyExpression.pathOf` | `derivation_path` (`keys.rs:126-128`) |
-/

namespace SignetFederation

/-- Why a key is refused. -/
inductive KeyFault where
  | empty
  | ranged
  | stepsBelowPlainKey
  | keyLength (bytes : Nat)
  | unterminatedOrigin
  | badFingerprint
  | secondPrivate
  | privateInPublicList
  | duplicate
  | notInSlot (slot : Slot)
  | noSlot (slot : Slot)
  | unreadable (what : String)
  deriving DecidableEq

/-- The wording of a fault. -/
def KeyFault.message : KeyFault → String
  | empty => "empty key expression"
  | ranged => "ranged keys are not supported"
  | stepsBelowPlainKey => "derivation is only allowed below extended keys"
  | keyLength n => "expected a 32 or 33 byte public key, got " ++ toString n ++ " bytes"
  | unterminatedOrigin => "unterminated key origin"
  | badFingerprint => "key origin fingerprint must be 8 hex characters"
  | secondPrivate => "descriptor holds more than one private key"
  | privateInPublicList => "public key list contains private material"
  | duplicate => "duplicate key in multi_a leaf"
  | notInSlot slot => "key does not occupy " ++ slot.text
  | noSlot slot => "quorum has no " ++ slot.text
  | unreadable what => "malformed " ++ what

/-- What a key expression stands for. -/
structure KeyExpression where
  publicKey : XOnlyKey
  secret : Option SecretKey
  deriving DecidableEq

namespace KeyExpression

/-- An expression of a secret key. -/
def ofSecret (k : SecretKey) : KeyExpression := ⟨k.xOnly, some k⟩

/-- An expression of a public key. -/
def ofPublic (k : XOnlyKey) : KeyExpression := ⟨k, none⟩

/-- The secret key that a wallet import text writes: a network's mark, the scalar, and perhaps a
byte that asks for the compressed public key. -/
def walletImport? (s : String) : Option SecretKey := do
  let b ← Base58.decodeCheck? s
  guard (b.length = 33 ∨ b.length = 34)
  guard (b.headD 0 = 128 ∨ b.headD 0 = 239)
  SecretKey.ofBytes? ((b.drop 1).take 32)

/-- The expression without its key origin. -/
def withoutOrigin : List Char → Except KeyFault (List Char)
  | '[' :: rest => do
    let some (origin, key) := Text.cutFirst ']' rest | throw .unterminatedOrigin
    let fingerprint := origin.takeWhile (· ≠ '/')
    if fingerprint.length = 8 ∧ fingerprint.all Hex.isDigit then return key
    else throw .badFingerprint
  | cs => return cs

/-- The result of a reader that fails without a reason of its own. -/
def orUnreadable {α : Type} (what : String) : Option α → Except KeyFault α
  | some a => .ok a
  | none => .error (.unreadable what)

/-- The key that a hexadecimal text writes. -/
def ofHex (s : String) : Except KeyFault KeyExpression := do
  let b ← orUnreadable "hexadecimal text" (Hex.decode? s)
  if b.length = 32 then ofPublic <$> orUnreadable "public key" (XOnlyKey.ofBytes? b)
  else if b.length = 33 then
    (fun k => ofPublic k.xOnly) <$> orUnreadable "public key" (PublicKey.ofCompressed? b)
  else throw (.keyLength b.length)

/-- The derivation path behind an extended key. -/
def pathOf : Option (List Char) → Except KeyFault DerivationPath
  | none => .ok []
  | some suffix => orUnreadable "derivation path" (DerivationPath.read? suffix)

/-- The key that an extended public key and a path lead to. -/
def ofExtendedPublic (base : String) (suffix : Option (List Char)) :
    Except KeyFault KeyExpression := do
  let x ← orUnreadable "extended key" (ExtendedPublic.ofText? base)
  let x ← orUnreadable "derivation" (x.derive? (← pathOf suffix))
  return ofPublic x.key.xOnly

/-- The key that an extended secret key and a path lead to. -/
def ofExtendedSecret (base : String) (suffix : Option (List Char)) :
    Except KeyFault KeyExpression := do
  let x ← orUnreadable "extended key" (ExtendedSecret.ofText? base)
  let x ← orUnreadable "derivation" (x.derive? (← pathOf suffix))
  return ofSecret x.key

/-- What a key expression stands for. -/
def parse (s : String) : Except KeyFault KeyExpression := do
  let key ← withoutOrigin s.toList
  if key = [] then throw .empty
  if '*' ∈ key then throw .ranged
  let (base, suffix) := match Text.cutFirst '/' key with
    | some (base, suffix) => (base, some suffix)
    | none => (key, none)
  let name := String.ofList base
  if "xpub".toList.isPrefixOf base || "tpub".toList.isPrefixOf base then
    ofExtendedPublic name suffix
  else if "xprv".toList.isPrefixOf base || "tprv".toList.isPrefixOf base then
    ofExtendedSecret name suffix
  else if suffix.isSome then throw .stepsBelowPlainKey
  else if base.all Hex.isDigit then ofHex name
  else ofSecret <$> orUnreadable "secret key" (walletImport? name)

end KeyExpression

end SignetFederation
