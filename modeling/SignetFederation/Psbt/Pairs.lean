import SignetFederation.SortedMap
import SignetFederation.Wire.CompactSize

/-!
# Pairs of a PSBT

A PSBT is a row of maps. A map is a row of pairs closed by a zero byte; a pair is a key, which
begins with a byte for its type, and a value. Some types occur once at most and have nothing more in
their keys; others are tables with an entry for each key.
-/

namespace SignetFederation.Psbt

/-- A pair of a map. -/
structure Pair where
  type : UInt8
  key : Bytes
  value : Bytes
  deriving DecidableEq

namespace Pair

/-- The serialized form. -/
def encode (p : Pair) : Bytes :=
  CompactSize.encode (p.key.length + 1) ++ p.type :: p.key ++ CompactSize.encodeBytes p.value

/-- Reads the pairs of a map up to its end, after those already read in reverse. -/
def decodeMapOnto : (fuel : Nat) → (acc : List Pair) → Decoder (List Pair)
  | 0, _, _ => .error .endOfData
  | fuel + 1, acc, b =>
    match CompactSize.decode b with
    | .error e => .error e
    | .ok (0, b) => .ok (acc.reverse, b)
    | .ok (n + 1, b) =>
      if n > CompactSize.vectorLimit then .error (.oversized n)
      else
        match Decoder.byte b with
        | .error e => .error e
        | .ok (type, b) =>
          match Decoder.take n b with
          | .error e => .error e
          | .ok (key, b) =>
            match CompactSize.boundedBytes b with
            | .error e => .error e
            | .ok (value, b) => decodeMapOnto fuel (⟨type, key, value⟩ :: acc) b

/-- Reads a map. -/
def decodeMap : Decoder (List Pair) := fun b => decodeMapOnto (b.length + 1) [] b

/-- The serialized form of a map. -/
def encodeMap (ps : List Pair) : Bytes := ps.flatMap encode ++ [0]

/-- The value of a type that occurs once at most. -/
def single {α : Type} (ps : List Pair) (type : UInt8) (read : Bytes → Option α) :
    Option (Option α) :=
  match ps.filter fun p => p.type = type with
  | [] => some none
  | [p] => if p.key = [] then (read p.value).map some else none
  | _ => none

/-- The entries of a type that is a table; no key comes twice. -/
def table {κ ν : Type} [Ranked κ] (ps : List Pair) (type : UInt8) (readKey : Bytes → Option κ)
    (readValue : κ → Bytes → Option ν) : Option (SortedMap κ ν) := do
  let entries ← (ps.filter fun p => p.type = type).mapM fun p => do
    let key ← readKey p.key
    return (key, ← readValue key p.value)
  SortedMap.ofList? entries

/-- The pair of a type that occurs once at most. -/
def ofSingle {α : Type} (type : UInt8) (write : α → Bytes) : Option α → List Pair
  | none => []
  | some a => [⟨type, [], write a⟩]

/-- The pairs of a table. -/
def ofTable {κ ν : Type} [Ranked κ] (type : UInt8) (writeKey : κ → Bytes) (writeValue : ν → Bytes)
    (m : SortedMap κ ν) : List Pair :=
  m.entries.map fun e => ⟨type, writeKey e.1, writeValue e.2⟩

end Pair

/-- The key of a pair whose type is not known: the type and the rest. -/
structure UnknownKey where
  type : UInt8
  key : Bytes
  deriving DecidableEq

instance : Ranked UnknownKey where
  rank k := byteRank (k.type :: k.key)
  rank_injective a b h := by
    obtain ⟨at_, ak⟩ := a
    obtain ⟨bt, bk⟩ := b
    have := byteRank_injective h
    simp_all

/-- The key of a pair that belongs to some vendor. -/
structure ProprietaryKey where
  vendor : Bytes
  subtype : UInt8
  key : Bytes
  deriving DecidableEq

namespace ProprietaryKey

/-- The key as it stands behind its type. -/
def encode (k : ProprietaryKey) : Bytes := CompactSize.encodeBytes k.vendor ++ k.subtype :: k.key

/-- The key that a byte string writes. -/
def decode? (b : Bytes) : Option ProprietaryKey :=
  match CompactSize.boundedBytes b with
  | .ok (vendor, subtype :: key) => some ⟨vendor, subtype, key⟩
  | _ => none

/-- Vendors are compared first: an end mark below all bytes closes the vendor. -/
def rank (k : ProprietaryKey) : List Nat :=
  (byteRank k.vendor).map (· + 1) ++ 0 :: byteRank (k.subtype :: k.key)

theorem eq_of_closed {a b x y : List Nat}
    (h : a.map (· + 1) ++ 0 :: x = b.map (· + 1) ++ 0 :: y) : a = b ∧ x = y := by
  induction a generalizing b with
  | nil =>
    cases b with
    | nil => simpa using h
    | cons c r => simp at h
  | cons c r ih =>
    cases b with
    | nil => simp at h
    | cons d s =>
      simp only [List.map_cons, List.cons_append, List.cons.injEq] at h
      obtain ⟨rfl, rfl⟩ := ih h.2
      exact ⟨by simp; omega, rfl⟩

instance : Ranked ProprietaryKey where
  rank := rank
  rank_injective a b h := by
    obtain ⟨av, as, ak⟩ := a
    obtain ⟨bv, bs, bk⟩ := b
    obtain ⟨hv, hk⟩ := eq_of_closed h
    have hv := byteRank_injective hv
    have hk := byteRank_injective hk
    simp_all

end ProprietaryKey

/-- The vendors' pairs and those of unknown types; `known` are the types that have a meaning. -/
structure OtherPairs where
  proprietary : SortedMap ProprietaryKey Bytes
  unknown : SortedMap UnknownKey Bytes
  deriving DecidableEq

namespace OtherPairs

/-- No other pairs. -/
def empty : OtherPairs := ⟨∅, ∅⟩

/-- The type of vendors' pairs. -/
def proprietaryType : UInt8 := 0xfc

/-- The other pairs of a map. -/
def read (known : List UInt8) (ps : List Pair) : Option OtherPairs := do
  let proprietary ← Pair.table ps proprietaryType ProprietaryKey.decode? fun _ v => some v
  let unknown ← SortedMap.ofList? ((ps.filter fun p =>
    p.type ≠ proprietaryType ∧ p.type ∉ known).map fun p =>
      ((⟨p.type, p.key⟩ : UnknownKey), p.value))
  return ⟨proprietary, unknown⟩

/-- The pairs, vendors' first. -/
def pairs (o : OtherPairs) : List Pair :=
  Pair.ofTable proprietaryType ProprietaryKey.encode id o.proprietary ++
    o.unknown.entries.map fun e => ⟨e.1.type, e.1.key, e.2⟩

end OtherPairs

end SignetFederation.Psbt
