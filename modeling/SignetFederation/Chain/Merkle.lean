import SignetFederation.Digest.Sha256

/-!
# Merkle roots

Hashes are joined in pairs, level by level, until one is left; a hash without a partner is joined
with itself. An empty row has no root.
-/

namespace SignetFederation.Merkle

/-- The hash of two hashes side by side. -/
def join (a b : Digest) : Digest := doubleSha256 (a.toBytes ++ b.toBytes)

/-- The level above a level. -/
def level : List Digest → List Digest
  | [] => []
  | [a] => [join a a]
  | a :: b :: rest => join a b :: level rest

theorem length_level (hs : List Digest) : (level hs).length = (hs.length + 1) / 2 := by
  fun_induction level hs with
  | case1 => rfl
  | case2 => simp
  | case3 a b rest ih => simp [ih]; omega

/-- The root over a row of hashes. -/
def root? : List Digest → Option Digest
  | [] => none
  | [a] => some a
  | a :: b :: rest => root? (level (a :: b :: rest))
termination_by hs => hs.length
decreasing_by
  rw [length_level]
  simp
  omega

theorem root?_isSome {hs : List Digest} (h : hs ≠ []) : (root? hs).isSome := by
  fun_induction root? hs with
  | case1 => exact absurd rfl h
  | case2 => rfl
  | case3 a b rest ih => exact ih (by simp [level])

end SignetFederation.Merkle
