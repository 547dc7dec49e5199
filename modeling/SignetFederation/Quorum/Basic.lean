import SignetFederation.Bytes.Bech32
import SignetFederation.Chain.Script
import SignetFederation.Digest.SipHash
import SignetFederation.Error
import SignetFederation.Taproot.Tree

/-!
# Quorums

A quorum is an internal key, which may sign alone, and a list of leaf keys of which a threshold
number has to sign. Its challenge is the taproot output of the internal key over a tree whose only
leaf checks the signatures. A quorum holds what follows from its keys, with the proof that it does.

`crates/quorum-core/src/quorum/mod.rs`:

| here | there |
| --- | --- |
| `Quorum.maxSigners` | `MAX_PUBKEYS_PER_MULTI_A` (`mod.rs:25`) |
| `Quorum` | `Quorum` (`mod.rs:32-41`) |
| `Quorum.make` | `Quorum::new` (`mod.rs:45-90`) |
| `Quorum.firstRepeated?` | its search for a key that comes twice (`mod.rs:57-62`) |
| `Quorum.multisigScript` | `Quorum::multisig_script` (`mod.rs:93-107`) |
| `Quorum.merkleRoot` | `Quorum::merkle_root` (`mod.rs:135-137`) |
| `Quorum.controlBlock` | `Quorum::control_block` (`mod.rs:140-142`) |
| `Quorum.outputKey` | `Quorum::output_key` (`mod.rs:145-147`) |
| `Quorum.challenge` | `Quorum::challenge` (`mod.rs:150-152`) |
| `Quorum.address` | `Quorum::address` (`mod.rs:155-157`) |
| `Quorum.keyFor` | `Quorum::key_for` (`mod.rs:160-165`) |
| `Quorum.slotOf` | `Quorum::slot_of` (`mod.rs:168-173`) |
| `Quorum.keyCount` | `Quorum::key_count` (`mod.rs:176-178`) |
| `Quorum.shortIdOf` | `Quorum::short_id` (`mod.rs:181-183`) |
| `Quorum.shortIds` | `Quorum::short_ids` (`mod.rs:186-191`) |
| `shortId` | `compute_short_id` (`types.rs:109-112`) |
-/

namespace SignetFederation

/-- The networks that addresses are written for. -/
inductive Network where
  | bitcoin
  | testnet
  | signet
  | regtest
  deriving DecidableEq

/-- The name that begins an address of a network. -/
def Network.addressName : Network → String
  | .bitcoin => "bc"
  | .testnet => "tb"
  | .signet => "tb"
  | .regtest => "bcrt"

namespace Quorum

/-- The largest number of keys in a leaf. -/
def maxSigners : Nat := 999

/-- The instructions for the keys after the first. -/
def furtherKeys (keys : List XOnlyKey) : Script :=
  keys.flatMap fun k => Script.push k.bytes.toBytes ++ [Script.opCheckSigAdd]

/-- The leaf script: it counts the keys that signed and compares the count with the threshold. -/
def multisigScript (keys : List XOnlyKey) (threshold : Nat) : Script :=
  (match keys with
    | [] => []
    | first :: rest =>
      Script.push first.bytes.toBytes ++ Script.opCheckSig :: furtherKeys rest) ++
    Script.pushNat threshold ++ [Script.opNumEqual]

/-- The first key that comes a second time in a list. -/
def firstRepeated? (seen : List XOnlyKey) : List XOnlyKey → Option XOnlyKey
  | [] => none
  | k :: rest => if k ∈ seen then some k else firstRepeated? (k :: seen) rest

theorem nodup_of_firstRepeated? {keys seen : List XOnlyKey}
    (h : firstRepeated? seen keys = none) : keys.Nodup ∧ ∀ k ∈ keys, k ∉ seen := by
  induction keys generalizing seen with
  | nil => simp
  | cons k rest ih =>
    unfold firstRepeated? at h
    split at h
    · cases h
    · rename_i hk
      obtain ⟨hrest, hseen⟩ := ih h
      refine ⟨List.nodup_cons.2 ⟨fun hm => hseen k hm List.mem_cons_self, hrest⟩, fun x hx => ?_⟩
      rcases List.mem_cons.1 hx with rfl | hx'
      · exact hk
      · exact fun hm => hseen x hx' (List.mem_cons_of_mem _ hm)

end Quorum

/-- A quorum of signers. -/
structure Quorum where
  internal : XOnlyKey
  signers : List XOnlyKey
  threshold : Nat
  threshold_pos : 0 < threshold
  threshold_le : threshold ≤ signers.length
  signers_le : signers.length ≤ Quorum.maxSigners
  nodup : signers.Nodup
  script : Script
  script_eq : script = Quorum.multisigScript signers threshold
  leafHash : Digest
  leafHash_eq : leafHash = Taproot.leafHash Taproot.scriptLeaf script
  output : Taproot.OutputKey
  output_eq : Taproot.outputKey? internal leafHash = some output

namespace Quorum

/-- The quorum of an internal key, leaf keys and a threshold. -/
def make (internal : XOnlyKey) (signers : List XOnlyKey) (threshold : Nat) : Except Error Quorum :=
  if h : 0 < threshold ∧ threshold ≤ signers.length ∧ signers.length ≤ maxSigners then
    match hr : firstRepeated? [] signers with
    | some key => .error (.invalidKey key.text false .duplicate)
    | none =>
      let script := multisigScript signers threshold
      let leafHash := Taproot.leafHash Taproot.scriptLeaf script
      match ho : Taproot.outputKey? internal leafHash with
      | none => .error .untweakable
      | some output =>
        .ok ⟨internal, signers, threshold, h.1, h.2.1, h.2.2, (nodup_of_firstRepeated? hr).1,
          script, rfl, leafHash, rfl, output, ho⟩
  else .error (.invalidThreshold threshold signers.length)

/-- Two quorums are one if their keys and thresholds are. -/
theorem ext_keys {q r : Quorum} (hi : q.internal = r.internal) (hs : q.signers = r.signers)
    (ht : q.threshold = r.threshold) : q = r := by
  obtain ⟨qi, qs, qt, _, _, _, _, qsc, hqsc, ql, hql, qo, hqo⟩ := q
  obtain ⟨ri, rs, rt, _, _, _, _, rsc, hrsc, rl, hrl, ro, hro⟩ := r
  simp only at hi hs ht
  subst hi hs ht hqsc hrsc hql hrl
  rw [hqo] at hro
  cases hro
  rfl

instance : DecidableEq Quorum := fun q r =>
  decidable_of_iff (q.internal = r.internal ∧ q.signers = r.signers ∧ q.threshold = r.threshold)
    ⟨fun ⟨hi, hs, ht⟩ => ext_keys hi hs ht, fun h => h ▸ ⟨rfl, rfl, rfl⟩⟩

/-- The root of the tree, whose only leaf is the script. -/
def merkleRoot (q : Quorum) : Digest := q.leafHash

/-- What shows that the script is the leaf of the tree. -/
def controlBlock (q : Quorum) : ControlBlock := ⟨Taproot.scriptLeaf, q.output.odd, q.internal, []⟩

/-- The key that signatures for the internal key verify against. -/
def outputKey (q : Quorum) : XOnlyKey := q.output.key

/-- The script that blocks have to satisfy. -/
def challenge (q : Quorum) : Script := Taproot.payTo q.outputKey

/-- The challenge as an address. -/
def address (q : Quorum) (n : Network) : String :=
  Bech32.address n.addressName q.outputKey.bytes.toBytes

/-- The key in a slot. -/
def keyFor (q : Quorum) : Slot → Option XOnlyKey
  | .keyPath => some q.internal
  | .script i => q.signers[i]?

/-- The slot of a key. A leaf slot comes before that of the internal key. -/
def slotOf (q : Quorum) (key : XOnlyKey) : Option Slot :=
  match q.signers.idxOf? key with
  | some i => some (.script i)
  | none => if key = q.internal then some .keyPath else none

/-- The number of keys with the internal key. -/
def keyCount (q : Quorum) : Nat := q.signers.length + 1

/-- All keys, the internal key first. -/
def keys (q : Quorum) : List XOnlyKey := q.internal :: q.signers

end Quorum

/-- The number that names a signer within a session: a hash of the key, keyed by the nonce. -/
def shortId (nonce : UInt64) (key : XOnlyKey) : UInt64 := sipHash24 nonce 0 key.evenCompressed

namespace Quorum

/-- The short id of a slot's key. -/
def shortIdOf (q : Quorum) (nonce : UInt64) (slot : Slot) : Option UInt64 :=
  (q.keyFor slot).map (shortId nonce)

/-- The short ids of all keys. -/
def shortIds (q : Quorum) (nonce : UInt64) : List UInt64 := q.keys.map (shortId nonce)

end Quorum

end SignetFederation
