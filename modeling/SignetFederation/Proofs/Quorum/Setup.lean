import Mathlib.Data.List.Forall2
import SignetFederation.Proofs.Quorum.Parsing
import SignetFederation.Quorum.Setup

/-!
# The quorum of a setup

The members' key texts go into the text of a descriptor, and the quorum is what that text says. The
text is cut at its commas again, so the quorum has a key for every piece of every text
(`quorum_of_build`): it is the one that was asked for if no text holds a comma, and only then. The
internal key is always the first member's, since a comma in its text would let the opening of the
leaf be read as a key.
-/

namespace SignetFederation

namespace Descriptor

theorem pieces_ne_nil (text : String) : pieces text ≠ [] := fun h =>
  Text.fields_ne_nil _ _ (List.map_eq_nil_iff.1 h)

theorem one_le_length_pieces (text : String) : 1 ≤ (pieces text).length :=
  List.length_pos_iff.2 (pieces_ne_nil text)

/-- A text without a comma is one piece. -/
theorem length_pieces_eq_one_iff {text : String} :
    (pieces text).length = 1 ↔ ',' ∉ text.toList := by
  constructor
  · intro h hmem
    obtain ⟨before, after, htext, hbefore⟩ := List.eq_append_cons_of_mem hmem
    rw [pieces, htext, Text.fields_append after hbefore, List.map_cons, List.length_cons,
      List.length_map] at h
    have := List.length_pos_iff.2 (Text.fields_ne_nil ',' after)
    omega
  · intro h
    rw [pieces_of_not_mem h, List.length_singleton]

theorem length_le_length_flatMap_pieces (texts : List String) :
    texts.length ≤ (texts.flatMap pieces).length := by
  induction texts with
  | nil => exact Nat.le_refl _
  | cons text texts ih =>
    have := one_le_length_pieces text
    rw [List.flatMap_cons, List.length_cons, List.length_append]
    omega

/-- There are as many pieces as texts exactly if no text holds a comma. -/
theorem length_flatMap_pieces_eq_iff {texts : List String} :
    (texts.flatMap pieces).length = texts.length ↔ ∀ text ∈ texts, ',' ∉ text.toList := by
  induction texts with
  | nil => simp
  | cons text texts ih =>
    rw [List.forall_mem_cons, ← length_pieces_eq_one_iff, ← ih, List.flatMap_cons, List.length_append,
      List.length_cons]
    have := one_le_length_pieces text
    have := length_le_length_flatMap_pieces texts
    omega

end Descriptor

namespace Setup

open QuorumDescriptor Descriptor

/-! ## Reading a body -/

/-- What a descriptor says that is written with key expressions: these are read, the public keys
make the quorum, and the one secret key is the local one. -/
structure Says (texts : List String) (threshold : Nat) (keys : List (String × KeyExpression))
    (d : QuorumDescriptor) : Prop where
  read : KeysRead texts keys
  secret : findSecret none 0 keys = .ok d.localKey
  publicKeys : keys.map (fun k => k.2.publicKey) = d.quorum.keys
  threshold : d.quorum.threshold = threshold

theorem exists_body_eq (first : String) (rest : List String) (threshold : Nat) :
    ∃ inner, (body (first :: rest) threshold).toList = "tr(".toList ++ (inner ++ [')']) := by
  rw [body, toList_render]
  exact exists_eq_written _ _ _

/-- **A written body is read piece by piece**, with its checksum or without. -/
theorem exists_stated {first text : String} {rest : List String} {threshold : Nat}
    {d : QuorumDescriptor} (h : parse text = .ok d)
    (htext : text = body (first :: rest) threshold ∨
      withChecksum (body (first :: rest) threshold) = .ok text) :
    ',' ∉ first.toList ∧ ∃ keys, Says ((first :: rest).flatMap pieces) threshold keys d := by
  obtain ⟨inner, hinner⟩ := exists_body_eq first rest threshold
  obtain ⟨b, p, keys, hb, hread⟩ := parse_eq_ok_iff.1 h
  have hbody : b = body (first :: rest) threshold := by
    rcases htext with rfl | hsealed
    · exact ((stripChecksum_framed_iff hinner).1 hb).2
    · exact ((stripChecksum_sealed_iff hinner hsealed).1 hb).2
  rw [hbody] at hread
  rcases of_parts_render hread.parts with ⟨hfirst, rfl⟩ | ⟨key, hkey, hleaf⟩
  · refine ⟨hfirst, keys, ?_, hread.secret, hread.publicKeys, hread.threshold⟩
    rw [List.flatMap_cons, pieces_of_not_mem hfirst]
    exact hread.read
  · -- the opening of the leaf was read as a key, but it is the beginning of none
    have hmem : key ∈ keys.map Prod.fst := by
      rw [hread.read.texts_eq]
      exact List.mem_cons_of_mem _ hkey
    obtain ⟨k, hk, rfl⟩ := List.mem_map.1 hmem
    exact absurd (hread.read.parsed k hk) (KeyExpression.parse_ne_of_leaf hleaf)

/-! ## The steps of a setup -/

theorem build_eq_ok_iff {members : List SignerKeyPair} {threshold : Nat} {d : QuorumDescriptor} :
    build members threshold = .ok d ↔ 2 ≤ members.length ∧
      parse (body (members.map SignerKeyPair.publicKey) threshold) = .ok d ∧ d.localKey = none ∧
      ∃ vs, views members threshold = .ok vs ∧ checkViews d vs = .ok () := by
  unfold build
  simp only [throw_bind, ite_error_eq_ok_iff, bind_eq_ok_iff, pure_eq_ok_iff, Nat.not_lt,
    Bool.not_eq_true, Option.isSome_eq_false_iff, Option.isNone_iff_eq_none]
  constructor
  · rintro ⟨hlen, d', hparse, hlocal, vs, hvs, _, hcheck, rfl⟩
    exact ⟨hlen, hparse, hlocal, vs, hvs, hcheck⟩
  · rintro ⟨hlen, hparse, hlocal, vs, hvs, hcheck⟩
    exact ⟨hlen, d, hparse, hlocal, vs, hvs, (), hcheck, rfl⟩

/-- Without secret keys there are no views to check. -/
theorem views_eq_nil {members : List SignerKeyPair} {threshold : Nat}
    (h : ∀ m ∈ members, m.secret = none) : views members threshold = .ok [] := by
  have hfrom : ∀ (keys : List String) (index : Nat),
      viewsFrom keys threshold index members = .ok [] := by
    intro keys index
    induction members generalizing index with
    | nil => rfl
    | cons m members ih =>
      obtain ⟨hm, hmembers⟩ := List.forall_mem_cons.1 h
      rw [viewsFrom, hm]
      exact ih hmembers (index + 1)
  exact hfrom _ 0

/-! ## The quorum -/

/-- The key that a text is an expression for. -/
def Names (text : String) (key : XOnlyKey) : Prop :=
  ∃ k, KeyExpression.parse text = .ok k ∧ k.publicKey = key

/-- The quorum that members ask for: the threshold, the first member's key as the internal key, and
a signer for each other member. -/
structure Asked (members : List SignerKeyPair) (threshold : Nat) (q : Quorum) : Prop where
  threshold : q.threshold = threshold
  internal : ∀ m, members[0]? = some m → Names m.publicKey q.internal
  count : q.signers.length = members.length - 1
  signers : ∀ i m, members[i + 1]? = some m →
    ∃ key, q.signers[i]? = some key ∧ Names m.publicKey key

theorem forall₂_names {texts : List String} {keys : List (String × KeyExpression)}
    (h : KeysRead texts keys) :
    List.Forall₂ Names texts (keys.map fun k => k.2.publicKey) := by
  rw [← h.texts_eq, List.forall₂_map_left_iff, List.forall₂_map_right_iff, List.forall₂_same]
  exact fun k hk => ⟨k.2, h.parsed k hk, rfl⟩

theorem asked_of_forall₂ {members : List SignerKeyPair} {threshold : Nat} {q : Quorum}
    (hthreshold : q.threshold = threshold)
    (h : List.Forall₂ Names (members.map SignerKeyPair.publicKey) q.keys) :
    Asked members threshold q := by
  rw [List.forall₂_map_left_iff, Quorum.keys] at h
  cases h with
  | cons hfirst hrest =>
    refine ⟨hthreshold, ?_, hrest.length_eq.symm, ?_⟩
    · rintro m ⟨⟩
      exact hfirst
    · intro i m hm
      rw [List.getElem?_cons_succ] at hm
      obtain ⟨hi, rfl⟩ := List.getElem?_eq_some_iff.1 hm
      have hi' := hrest.length_eq ▸ hi
      exact ⟨_, List.getElem?_eq_getElem hi', hrest.get hi hi'⟩

/-- **The quorum of a setup** has the threshold, the first member's key as its internal key, and a
signer for each piece of the other members' texts. It is the one that was asked for exactly if no
text holds a comma. -/
theorem quorum_of_build {members : List SignerKeyPair} {threshold : Nat} {d : QuorumDescriptor}
    (h : build members threshold = .ok d) :
    d.quorum.threshold = threshold ∧
      (∀ m, members[0]? = some m → Names m.publicKey d.quorum.internal) ∧
      List.Forall₂ Names (members.flatMap fun m => pieces m.publicKey) d.quorum.keys ∧
      (Asked members threshold d.quorum ↔ ∀ m ∈ members, ',' ∉ m.publicKey.toList) := by
  obtain ⟨hlen, hparse, _⟩ := build_eq_ok_iff.1 h
  obtain ⟨first, rest, rfl⟩ := List.exists_cons_of_length_pos (Nat.lt_of_succ_lt hlen)
  obtain ⟨hfirst, keys, hstated⟩ := exists_stated hparse (.inl rfl)
  have hnames := forall₂_names hstated.read
  rw [hstated.publicKeys, ← List.map_cons, List.flatMap_map] at hnames
  refine ⟨hstated.threshold, ?_, hnames, ?_⟩
  · rintro m ⟨⟩
    rw [List.flatMap_cons, pieces_of_not_mem hfirst, List.singleton_append, Quorum.keys] at hnames
    exact (List.forall₂_cons.1 hnames).1
  · have hcommas : (∀ m ∈ first :: rest, ',' ∉ m.publicKey.toList) ↔
        ∀ text ∈ (first :: rest).map SignerKeyPair.publicKey, ',' ∉ text.toList := by
      rw [List.forall_mem_map]
    rw [hcommas]
    constructor
    · intro hasked
      refine length_flatMap_pieces_eq_iff.1 ?_
      rw [List.flatMap_map, hnames.length_eq, Quorum.keys, List.length_cons, hasked.count,
        List.length_map, List.length_cons]
      rfl
    · intro hplain
      refine asked_of_forall₂ hstated.threshold ?_
      rwa [← flatMap_pieces_eq hplain, List.flatMap_map]

/-! ## Two setups of the sample quorum -/

/-- Members who give a public key each: those of the sample quorum. -/
def sampleMembers : List SignerKeyPair := [
  ⟨none, "79be667ef9dcbbac55a06295ce870b07029bfcdb2dce28d959f2815b16f81798"⟩,
  ⟨none, "c6047f9441ed7d6d3045406e95c07cd85c778e4b8cef3ca7abac09b95c709ee5"⟩,
  ⟨none, "f9308a019258c31049344f85f89d5229b531c845836f99b08601f113bce036f9"⟩]

/-- Two members, of whom the second gives two keys with a comma between them. -/
def doubledMembers : List SignerKeyPair := [
  ⟨none, "79be667ef9dcbbac55a06295ce870b07029bfcdb2dce28d959f2815b16f81798"⟩,
  ⟨none, "c6047f9441ed7d6d3045406e95c07cd85c778e4b8cef3ca7abac09b95c709ee5" ++ "," ++
    "f9308a019258c31049344f85f89d5229b531c845836f99b08601f113bce036f9"⟩]

theorem texts_sample : sampleMembers.map SignerKeyPair.publicKey =
    Quorum.sample.keys.map XOnlyKey.text := by decide +kernel

theorem body_sampleMembers :
    body (sampleMembers.map SignerKeyPair.publicKey) 1 = Quorum.sample.parts.render := by
  rw [texts_sample]
  rfl

theorem body_doubledMembers :
    body (doubledMembers.map SignerKeyPair.publicKey) 1 = Quorum.sample.parts.render := by
  rw [← body_sampleMembers, ← String.toList_inj]
  simp only [body, doubledMembers, sampleMembers, List.map_cons, List.map_nil, toList_render,
    written, Text.joinWith, String.toList_append, List.append_assoc]
  rfl

theorem build_of_parse {members : List SignerKeyPair} {threshold : Nat} {d : QuorumDescriptor}
    (hlen : 2 ≤ members.length) (hsecrets : ∀ m ∈ members, m.secret = none)
    (hparse : parse (body (members.map SignerKeyPair.publicKey) threshold) = .ok d)
    (hlocal : d.localKey = none) : build members threshold = .ok d :=
  build_eq_ok_iff.2 ⟨hlen, hparse, hlocal, [], views_eq_nil hsecrets, rfl⟩

theorem quorum_of_build_sample : ∃ d, build sampleMembers 1 = .ok d ∧
    Asked sampleMembers 1 d.quorum := by
  obtain ⟨text, hparse⟩ := Quorum.exists_parse_sample
  rw [← body_sampleMembers] at hparse
  have hbuild := build_of_parse (by decide) (by decide) hparse rfl
  exact ⟨_, hbuild, (quorum_of_build hbuild).2.2.2.2 (by decide)⟩

/-- The second member of two gives two keys, and the setup succeeds with three. -/
theorem build_doubledMembers : ∃ d, build doubledMembers 1 = .ok d ∧
    d.quorum.signers.length = 2 ∧ ¬ Asked doubledMembers 1 d.quorum := by
  obtain ⟨text, hparse⟩ := Quorum.exists_parse_sample
  rw [← body_doubledMembers] at hparse
  refine ⟨_, build_of_parse (by decide) (by decide) hparse rfl, rfl, fun hasked => ?_⟩
  have hcount : 2 = 1 := hasked.count
  cases hcount

end Setup

end SignetFederation
