import Mathlib.Data.List.Nodup
import SignetFederation.Quorum.Basic

/-!
# Slots and keys of a quorum

The signers of a quorum are distinct, so a leaf key and its slot determine each other
(`slotOf_eq_script_iff`, `signer_inj`). The file also holds a quorum of two signers for the concrete
runs of the other files.
-/

namespace SignetFederation.Quorum

/-- The slot of a leaf key is its place among the signers. -/
theorem slotOf_eq_script_iff {q : Quorum} {key : XOnlyKey} {n : Nat} :
    q.slotOf key = some (.script n) ↔ q.signers[n]? = some key := by
  unfold slotOf
  constructor
  · intro h
    split at h
    · next i hi =>
      cases h
      obtain ⟨hlt, hkey, _⟩ := List.idxOf?_eq_some_iff.1 hi
      exact List.getElem?_eq_some_iff.2 ⟨hlt, hkey⟩
    · split at h <;> cases h
  · intro h
    obtain ⟨hlt, hkey⟩ := List.getElem?_eq_some_iff.1 h
    have hidx : q.signers.idxOf? key = some n := by
      refine List.idxOf?_eq_some_iff.2 ⟨hlt, hkey, fun j hj heq => ?_⟩
      have := q.nodup.getElem_inj_iff.1 (heq.trans hkey.symm)
      omega
    rw [hidx]

/-- Two places of the leaf with one key are one place. -/
theorem signer_inj {q : Quorum} {m n : Nat} {key : XOnlyKey} (hm : q.signers[m]? = some key)
    (hn : q.signers[n]? = some key) : m = n := by
  have hs := slotOf_eq_script_iff.2 hm
  rw [slotOf_eq_script_iff.2 hn] at hs
  cases hs
  rfl

theorem mem_keys_of_keyFor {q : Quorum} {slot : Slot} {key : XOnlyKey}
    (h : q.keyFor slot = some key) : key ∈ q.keys := by
  cases slot with
  | keyPath =>
    rw [← Option.some.inj h]
    exact List.mem_cons_self ..
  | script n => exact List.mem_cons_of_mem _ (List.mem_of_getElem? h)

/-! ## A quorum of two signers -/

/-- Two signers of whom one suffices, with the secrets 2 and 3; the internal key has the secret 1. -/
def sample : Quorum where
  internal := .ofNat 0x79be667ef9dcbbac55a06295ce870b07029bfcdb2dce28d959f2815b16f81798
  signers := [.ofNat 0xc6047f9441ed7d6d3045406e95c07cd85c778e4b8cef3ca7abac09b95c709ee5,
    .ofNat 0xf9308a019258c31049344f85f89d5229b531c845836f99b08601f113bce036f9]
  threshold := 1
  threshold_pos := by decide
  threshold_le := by decide
  signers_le := by decide
  nodup := by decide +kernel
  script := _
  script_eq := rfl
  leafHash := ⟨Bytes.be 32
    0xdd9c8918225273770324fb50498cc7b361ed8638372b5a1854d878f4d3e751c3, by simp⟩
  leafHash_eq := by decide +kernel
  output := ⟨.ofNat
    0xb8947f39991600009c4d8c0a745efd799cec3f0c5cdd0cd49b9c263fa66e9b34, true⟩
  output_eq := by decide +kernel

end SignetFederation.Quorum
