import SignetFederation.Chain.Transaction
import SignetFederation.Keys.Extended
import SignetFederation.Psbt.Pairs
import SignetFederation.Secp256k1.Der
import SignetFederation.Taproot.LeafTree
import SignetFederation.Taproot.Signature

/-!
# Partially signed transactions

A transaction without signatures, and for each of its inputs and outputs what signers need to know
and what they have added so far.
-/

namespace SignetFederation

instance (n : Nat) : Ranked (FixedBytes n) where
  rank b := byteRank b.toBytes
  rank_injective _ _ h := FixedBytes.ext_toBytes (byteRank_injective h)

instance : Ranked PublicKey where
  rank k := byteRank k.compressed.toBytes
  rank_injective a b h := by
    cases a; cases b
    exact congrArg _ (FixedBytes.ext_toBytes (byteRank_injective h))

instance : Ranked XOnlyKey where
  rank k := byteRank k.bytes.toBytes
  rank_injective a b h := by
    cases a; cases b
    exact congrArg _ (FixedBytes.ext_toBytes (byteRank_injective h))

/-- The place of a script signature: the key and the leaf that it signs for. -/
structure LeafSigner where
  key : XOnlyKey
  leaf : Digest
  deriving DecidableEq

instance : Ranked LeafSigner where
  rank s := byteRank (s.key.bytes.toBytes ++ s.leaf.toBytes)
  rank_injective a b h := by
    obtain ⟨⟨ak, hak⟩, al, hal⟩ := a
    obtain ⟨⟨bk, hbk⟩, bl, hbl⟩ := b
    obtain ⟨rfl, rfl⟩ := List.append_inj (byteRank_injective h) (hak.trans hbk.symm)
    rfl

namespace ControlBlock

/-- Blocks of leaves that hold scripts come first; then version, parity, internal key and branch
decide. -/
def rank (c : ControlBlock) : List Nat :=
  (if c.version = Taproot.scriptLeaf then 0 else 1) :: c.version.toNat :: c.odd.toNat ::
    (byteRank c.internal.bytes.toBytes ++ byteRank (c.branch.flatMap FixedBytes.toBytes))

theorem flatMap_toBytes_inj {a b : List Digest}
    (h : a.flatMap FixedBytes.toBytes = b.flatMap FixedBytes.toBytes) : a = b := by
  induction a generalizing b with
  | nil =>
    cases b with
    | nil => rfl
    | cons d s =>
      have := congrArg List.length h
      simp [d.length_eq] at this
      omega
  | cons c r ih =>
    cases b with
    | nil =>
      have := congrArg List.length h
      simp [c.length_eq] at this
    | cons d s =>
      simp only [List.flatMap_cons] at h
      obtain ⟨hc, hr⟩ := List.append_inj h (c.length_eq.trans d.length_eq.symm)
      rw [FixedBytes.ext_toBytes hc, ih hr]

instance : Ranked ControlBlock where
  rank := rank
  rank_injective a b h := by
    obtain ⟨av, ao, ⟨ai, hai⟩, ab⟩ := a
    obtain ⟨bv, bo, ⟨bi, hbi⟩, bb⟩ := b
    simp only [rank, List.cons.injEq] at h
    obtain ⟨_, hv, ho, h⟩ := h
    obtain ⟨hi, hb⟩ := List.append_inj h (by simp [byteRank, hai, hbi])
    obtain rfl := UInt8.toNat_inj.1 hv
    obtain rfl : ao = bo := by cases ao <;> cases bo <;> simp_all
    obtain rfl := byteRank_injective hi
    obtain rfl := flatMap_toBytes_inj (byteRank_injective hb)
    rfl

end ControlBlock

/-- Where a key comes from: the fingerprint of a master key and the path below it. -/
structure KeySource where
  fingerprint : FixedBytes 4
  path : DerivationPath
  deriving DecidableEq

namespace ExtendedPublic

/-- Network, depth, parent, step, key and chain code decide, in this order. -/
def rank (x : ExtendedPublic) : List Nat :=
  (match x.place.network with | .main => 0 | .test => 1) :: x.place.depth.toNat ::
    (byteRank x.place.parent.toBytes ++ x.place.child.toNat ::
      (byteRank x.key.compressed.toBytes ++ byteRank x.place.chain.toBytes))

instance : Ranked ExtendedPublic where
  rank := rank
  rank_injective a b h := by
    obtain ⟨⟨an, ad, ⟨ap, hap⟩, ac, ⟨ah, hah⟩⟩, ⟨⟨ak, hak⟩⟩⟩ := a
    obtain ⟨⟨bn, bd, ⟨bp, hbp⟩, bc, ⟨bh, hbh⟩⟩, ⟨⟨bk, hbk⟩⟩⟩ := b
    simp only [rank, List.cons.injEq] at h
    obtain ⟨hn, hd, h⟩ := h
    obtain ⟨hp, h⟩ := List.append_inj h (by simp [byteRank, hap, hbp])
    obtain ⟨hc, h⟩ := List.cons.inj h
    obtain ⟨hk, hh⟩ := List.append_inj h (by simp [byteRank, hak, hbk])
    obtain rfl := UInt8.toNat_inj.1 hd
    obtain rfl := UInt32.toNat_inj.1 hc
    obtain rfl := byteRank_injective hp
    obtain rfl := byteRank_injective hk
    obtain rfl := byteRank_injective hh
    obtain rfl : an = bn := by cases an <;> cases bn <;> simp_all
    rfl

end ExtendedPublic

namespace Psbt

/-- A public key of the kind whose written form tells how it is hashed. -/
structure EcdsaKey where
  compressed : Bool
  key : PublicKey
  deriving DecidableEq

instance : Ranked EcdsaKey where
  rank k := k.compressed.toNat :: Ranked.rank k.key
  rank_injective a b h := by
    obtain ⟨ac, ak⟩ := a
    obtain ⟨bc, bk⟩ := b
    simp only [List.cons.injEq] at h
    obtain rfl := Ranked.rank_injective _ _ h.2
    obtain rfl : ac = bc := by cases ac <;> cases bc <;> simp_all
    rfl

/-- An ECDSA signature with the byte that tells what it covers. -/
structure EcdsaSignature where
  signature : Der.Signature
  coverage : UInt8
  deriving DecidableEq

/-- What is known about an input. -/
structure Input where
  previousTransaction : Option Transaction
  spentOutput : Option TxOut
  partialSignatures : SortedMap EcdsaKey EcdsaSignature
  sighashType : Option UInt32
  redeemScript : Option Script
  witnessScript : Option Script
  derivations : SortedMap PublicKey KeySource
  finalScriptSig : Option Script
  finalWitness : Option Witness
  ripemd160Preimages : SortedMap (FixedBytes 20) Bytes
  sha256Preimages : SortedMap (FixedBytes 32) Bytes
  hash160Preimages : SortedMap (FixedBytes 20) Bytes
  hash256Preimages : SortedMap (FixedBytes 32) Bytes
  tapKeySignature : Option TapSignature
  tapScriptSignatures : SortedMap LeafSigner TapSignature
  tapScripts : SortedMap ControlBlock (Script × UInt8)
  tapKeyOrigins : SortedMap XOnlyKey (List Digest × KeySource)
  tapInternalKey : Option XOnlyKey
  tapMerkleRoot : Option Digest
  others : OtherPairs
  deriving DecidableEq

/-- An input of which nothing is known. -/
def Input.blank : Input :=
  ⟨none, none, ∅, none, none, none, ∅, none, none, ∅, ∅, ∅, ∅, none, ∅, ∅, ∅, none, none, .empty⟩

/-- What is known about an output. -/
structure Output where
  redeemScript : Option Script
  witnessScript : Option Script
  derivations : SortedMap PublicKey KeySource
  tapInternalKey : Option XOnlyKey
  tapTree : Option (List TapLeaf)
  tapKeyOrigins : SortedMap XOnlyKey (List Digest × KeySource)
  others : OtherPairs
  deriving DecidableEq

/-- An output of which nothing is known. -/
def Output.blank : Output := ⟨none, none, ∅, none, none, ∅, .empty⟩

end Psbt

/-- A partially signed transaction. -/
structure Psbt where
  unsigned : Transaction
  extendedKeys : SortedMap ExtendedPublic KeySource
  others : Psbt.OtherPairs
  inputs : List Psbt.Input
  outputs : List Psbt.Output
  deriving DecidableEq

/-- The PSBT of a transaction about which nothing else is known. -/
def Psbt.ofTransaction (t : Transaction) : Psbt :=
  ⟨t, ∅, .empty, t.inputs.map fun _ => .blank, t.outputs.map fun _ => .blank⟩

end SignetFederation
