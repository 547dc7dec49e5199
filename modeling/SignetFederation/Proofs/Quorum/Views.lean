import SignetFederation.Proofs.Quorum.Setup
import SignetFederation.Signing.Signer

/-!
# The views of a setup

A setup reads every view back and compares its challenge, but does not look for the secret key. So
every member with a secret text gets a view, in key order, and the view leads to the challenge of
the quorum (`views_of_build`); whether it can sign for its slot is decided by the text that was given
as the secret: it can exactly if that text is an expression for a secret key and no earlier public
text was cut into more than one piece.
-/

namespace SignetFederation

theorem Quorum.keyFor_eq_getElem? (q : Quorum) (slot : Slot) :
    q.keyFor slot = q.keys[slot.keyIndex]? := by
  cases slot with
  | keyPath => rfl
  | script i => rfl

theorem mem_append_of_getElem?_ne {α : Type} {before after : List α} {a a' : α} {n : Nat}
    (h : (before ++ a :: after)[n]? = some a') (hne : n ≠ before.length) :
    a' ∈ before ++ after := by
  rw [List.mem_append]
  rcases Nat.lt_or_gt_of_ne hne with hlt | hgt
  · rw [List.getElem?_append_left hlt] at h
    exact .inl (List.mem_of_getElem? h)
  · rw [List.getElem?_append_right (Nat.le_of_lt hgt), List.getElem?_cons, if_neg (by omega)] at h
    exact .inr (List.mem_of_getElem? h)

/-! ## Signers of descriptors -/

/-- The secret key of a slot is that of the expression in its place. -/
theorem QuorumDescriptor.localKey_eq_some_iff {keys : List (String × KeyExpression)}
    {localKey : Option (Slot × SecretKey)} (h : findSecret none 0 keys = .ok localKey) {slot : Slot}
    {secret : SecretKey} :
    localKey = some (slot, secret) ↔
      ∃ k, keys[slot.keyIndex]? = some k ∧ k.2.secret = some secret := by
  rcases findSecret_eq_ok_iff.1 h with ⟨rfl, hnone⟩ | ⟨before, k, after, secret', rfl, hk, hnone, rfl⟩
  · refine ⟨nofun, ?_⟩
    rintro ⟨k, hk, hsecret⟩
    rw [hnone k (List.mem_of_getElem? hk)] at hsecret
    cases hsecret
  · rw [Nat.zero_add, Option.some.injEq, Prod.mk.injEq]
    constructor
    · rintro ⟨rfl, rfl⟩
      exact ⟨k, by simp, hk⟩
    · rintro ⟨k', hk', hsecret⟩
      by_cases hplace : slot.keyIndex = before.length
      · have hsame : k = k' := by simpa [hplace] using hk'
        refine ⟨by rw [← hplace, Slot.ofKeyIndex_keyIndex], Option.some.inj (hk.symm.trans ?_)⟩
        rw [hsame, hsecret]
      · -- any other expression is one of those without a secret key
        rw [hnone k' (mem_append_of_getElem?_ne hk' hplace)] at hsecret
        cases hsecret

/-- A descriptor with a secret key is that of a local signer: the public key in the slot is the
secret's. -/
theorem LocalSigner.exists_ofDescriptor {text : String} {d : QuorumDescriptor} {slot : Slot}
    (h : QuorumDescriptor.parse text = .ok d) (hslot : d.localSlot = some slot) :
    ∃ signer, ofDescriptor d = .ok signer ∧ signer.slot = slot := by
  obtain ⟨⟨slot', secret⟩, hlocal, rfl⟩ := Option.map_eq_some_iff.1 hslot
  obtain ⟨body, p, keys, _, hread⟩ := QuorumDescriptor.parse_eq_ok_iff.1 h
  have hkey : d.quorum.keyFor slot' = some secret.xOnly := by
    obtain ⟨k, hk, hsecret⟩ := (QuorumDescriptor.localKey_eq_some_iff hread.secret).1 hlocal
    have hparsed := hread.read.parsed k (List.mem_of_getElem? hk)
    rw [Quorum.keyFor_eq_getElem?, ← hread.publicKeys, List.getElem?_map, hk, Option.map_some,
      KeyExpression.publicKey_of_secret hparsed hsecret]
  refine ⟨⟨d.quorum, slot', secret, hkey⟩, ?_, rfl⟩
  unfold ofDescriptor
  rw [hlocal]
  exact dif_pos hkey

/-- The signer of a descriptor has its quorum, its slot and its secret key. -/
theorem LocalSigner.of_ofDescriptor {d : QuorumDescriptor} {signer : LocalSigner}
    (h : ofDescriptor d = .ok signer) :
    signer.quorum = d.quorum ∧ d.localKey = some (signer.slot, signer.secret) := by
  unfold ofDescriptor at h
  split at h
  · next slot secret hlocal =>
    unfold make at h
    split at h
    · cases h
      exact ⟨rfl, hlocal⟩
    · cases h
  · cases h

theorem LocalSigner.slot_of_ofDescriptor {d : QuorumDescriptor} {signer : LocalSigner}
    (h : ofDescriptor d = .ok signer) : d.localSlot = some signer.slot := by
  rw [QuorumDescriptor.localSlot, (of_ofDescriptor h).2, Option.map_some]

namespace Setup

open QuorumDescriptor Descriptor

/-! ## Where the secret key is -/

/-- A text is an expression for a secret key. -/
def HoldsSecret (text : String) : Prop :=
  ∃ k, KeyExpression.parse text = .ok k ∧ k.secret.isSome = true

variable {texts keys : List String} {threshold : Nat} {d own : QuorumDescriptor}

/-- The texts for secret keys stand where the expressions with a secret key do. -/
theorem exists_holdsSecret_iff {read : List (String × KeyExpression)} (h : KeysRead texts read)
    (n : Nat) : (∃ text, texts[n]? = some text ∧ HoldsSecret text) ↔
      ∃ k, read[n]? = some k ∧ k.2.secret.isSome = true := by
  have hholds : ∀ k ∈ read, HoldsSecret k.1 ↔ k.2.secret.isSome = true := by
    intro k hk
    have hparsed := h.parsed k hk
    constructor
    · rintro ⟨k', hk', hsome⟩
      cases hparsed.symm.trans hk'
      exact hsome
    · exact fun hsome => ⟨k.2, hparsed, hsome⟩
  simp only [← h.texts_eq, List.getElem?_map, Option.map_eq_some_iff]
  constructor
  · rintro ⟨_, ⟨k, hk, rfl⟩, htext⟩
    exact ⟨k, hk, (hholds k (List.mem_of_getElem? hk)).1 htext⟩
  · rintro ⟨k, hk, hsome⟩
    exact ⟨k.1, ⟨k, hk, rfl⟩, (hholds k (List.mem_of_getElem? hk)).2 hsome⟩

/-- The slot of a descriptor's secret key is the place of the one expression for a secret key. -/
theorem localSlot_eq_some_iff {read : List (String × KeyExpression)}
    (h : Says texts threshold read d) (n : Nat) :
    d.localSlot = some (Slot.ofKeyIndex n) ↔ ∃ text, texts[n]? = some text ∧ HoldsSecret text := by
  rw [exists_holdsSecret_iff h.read, localSlot, Option.map_eq_some_iff]
  constructor
  · rintro ⟨⟨slot, secret⟩, hlocal, rfl⟩
    obtain ⟨k, hk, hsecret⟩ := (localKey_eq_some_iff h.secret).1 hlocal
    rw [Slot.keyIndex_ofKeyIndex] at hk
    exact ⟨k, hk, Option.isSome_iff_exists.2 ⟨secret, hsecret⟩⟩
  · rintro ⟨k, hk, hsome⟩
    obtain ⟨secret, hsecret⟩ := Option.isSome_iff_exists.1 hsome
    rw [← Slot.keyIndex_ofKeyIndex n] at hk
    exact ⟨_, (localKey_eq_some_iff h.secret).2 ⟨k, hk, hsecret⟩, rfl⟩

theorem not_holdsSecret {read : List (String × KeyExpression)} (h : Says texts threshold read d)
    (hlocal : d.localKey = none) : ∀ text ∈ texts, ¬ HoldsSecret text := by
  intro text htext hholds
  obtain ⟨n, hn⟩ := List.getElem?_of_mem htext
  have hslot := (localSlot_eq_some_iff h n).2 ⟨text, hn, hholds⟩
  rw [localSlot, hlocal] at hslot
  cases hslot

/-- **The slot of a view.** When one of the public texts is replaced, the secret key is in its place
exactly if the replacing text begins with an expression for one, and no text before it is cut. -/
theorem localSlot_of_set {read : List (String × KeyExpression)} {i : Nat} {secret : String}
    (hi : i < keys.length) (hstated : Says ((keys.set i secret).flatMap pieces) threshold read own)
    (hpublic : ∀ text ∈ keys.flatMap pieces, ¬ HoldsSecret text) :
    own.localSlot = some (Slot.ofKeyIndex i) ↔ (∀ text ∈ keys.take i, ',' ∉ text.toList) ∧
      ∃ piece, (pieces secret)[0]? = some piece ∧ HoldsSecret piece := by
  rw [List.set_eq_take_append_cons_drop, if_pos hi, List.flatMap_append, List.flatMap_cons] at hstated
  have hlen : (keys.take i).length = i := List.length_take_of_le (Nat.le_of_lt hi)
  have hle := length_le_length_flatMap_pieces (keys.take i)
  rw [localSlot_eq_some_iff hstated, ← length_flatMap_pieces_eq_iff, hlen]
  by_cases hcut : ((keys.take i).flatMap pieces).length = i
  · have hplace : ∀ after, (((keys.take i).flatMap pieces) ++ (pieces secret ++ after))[i]? =
        (pieces secret)[0]? := by
      intro after
      rw [List.getElem?_append_right (Nat.le_of_eq hcut), hcut, Nat.sub_self,
        List.getElem?_append_left (one_le_length_pieces secret)]
    rw [hplace]
    exact (and_iff_right hcut).symm
  · refine ⟨?_, fun h => absurd h.1 hcut⟩
    rintro ⟨text, htext, hholds⟩
    rw [List.getElem?_append_left (by omega)] at htext
    refine absurd hholds (hpublic text ?_)
    rw [← List.take_append_drop i keys, List.flatMap_append]
    exact List.mem_append_left _ (List.mem_of_getElem? htext)

/-! ## Which views there are -/

/-- The places and the secret texts of the members who have one. -/
def holders (index : Nat) (members : List SignerKeyPair) : List (Nat × String) :=
  (members.zipIdx index).filterMap fun m => m.1.secret.map (m.2, ·)

theorem viewsFrom_eq_ok_iff {members : List SignerKeyPair} {index : Nat} {vs : List SignerView} :
    viewsFrom keys threshold index members = .ok vs ↔
      List.Forall₂ (fun (holder : Nat × String) (v : SignerView) =>
        v.slot = Slot.ofKeyIndex holder.1 ∧
          withChecksum (body (keys.set holder.1 holder.2) threshold) = .ok v.descriptor)
        (holders index members) vs := by
  induction members generalizing index vs with
  | nil =>
    rw [viewsFrom, Except.ok.injEq, holders, List.zipIdx_nil, List.filterMap_nil,
      List.forall₂_nil_left_iff, eq_comm]
  | cons m members ih =>
    cases hsecret : m.secret with
    | none =>
      have hholders : holders index (m :: members) = holders (index + 1) members := by
        simp [holders, hsecret]
      simp only [viewsFrom, hsecret]
      rw [hholders, ih]
    | some secret =>
      have hholders : holders index (m :: members) = (index, secret) :: holders (index + 1) members := by
        simp [holders, hsecret]
      simp only [viewsFrom, hsecret]
      rw [hholders, List.forall₂_cons_left_iff]
      simp only [bind_eq_ok_iff, pure_eq_ok_iff, lift_eq_ok_iff, ih]
      constructor
      · rintro ⟨text, htext, vs, hvs, rfl⟩
        exact ⟨_, vs, ⟨rfl, htext⟩, hvs, rfl⟩
      · rintro ⟨⟨slot, text⟩, vs, ⟨rfl, htext⟩, hvs, rfl⟩
        exact ⟨text, htext, vs, hvs, rfl⟩

theorem checkViews_eq_ok_iff {vs : List SignerView} :
    checkViews d vs = .ok () ↔
      ∀ v ∈ vs, ∃ own, parse v.descriptor = .ok own ∧ own.challenge = d.challenge := by
  induction vs with
  | nil => simp [checkViews]
  | cons v vs ih =>
    simp only [checkViews, bind_eq_ok_iff, throw_bind, ite_error_eq_ok_iff, not_not, ih,
      List.forall_mem_cons]
    constructor
    · rintro ⟨own, hown, hchallenge, hvs⟩
      exact ⟨⟨own, hown, hchallenge⟩, hvs⟩
    · rintro ⟨⟨own, hown, hchallenge⟩, hvs⟩
      exact ⟨own, hown, hchallenge, hvs⟩

/-! ## What a view is good for -/

/-- A member's secret text brings a secret key into the member's slot: it begins with an expression
for one, and no earlier public text is cut. -/
def Brought (members : List SignerKeyPair) (holder : Nat × String) : Prop :=
  (∀ m ∈ members.take holder.1, ',' ∉ m.publicKey.toList) ∧
    ∃ piece, (pieces holder.2)[0]? = some piece ∧ HoldsSecret piece

/-- Without commas, what counts is the secret text alone. -/
theorem brought_iff {members : List SignerKeyPair} {holder : Nat × String}
    (hpublic : ∀ m ∈ members, ',' ∉ m.publicKey.toList) (hsecret : ',' ∉ holder.2.toList) :
    Brought members holder ↔ HoldsSecret holder.2 := by
  rw [Brought, pieces_of_not_mem hsecret]
  constructor
  · rintro ⟨_, _, ⟨⟩, h⟩
    exact h
  · exact fun h => ⟨fun m hm => hpublic m (List.mem_of_mem_take hm), holder.2, rfl, h⟩

/-- The view of a member: its slot is the member's, it is read as a descriptor with the challenge of
the quorum, and it is one that a signer of this slot can be made of if the secret key is there. -/
structure ViewOf (members : List SignerKeyPair) (d : QuorumDescriptor) (holder : Nat × String)
    (v : SignerView) : Prop where
  slot : v.slot = Slot.ofKeyIndex holder.1
  own : ∃ own, parse v.descriptor = .ok own ∧ own.challenge = d.challenge ∧
    (own.localSlot = some v.slot ↔ Brought members holder) ∧
    ((∃ signer, LocalSigner.ofDescriptor own = .ok signer ∧ signer.slot = v.slot) ↔
      Brought members holder)

theorem lt_of_mem_holders {members : List SignerKeyPair} {holder : Nat × String}
    (h : holder ∈ holders 0 members) : holder.1 < members.length := by
  obtain ⟨⟨m, i⟩, hm, hholder⟩ := List.mem_filterMap.1 h
  obtain ⟨secret, _, rfl⟩ := Option.map_eq_some_iff.1 hholder
  simpa using (List.mem_zipIdx hm).2.1

theorem viewOf_of_build {members : List SignerKeyPair} {holder : Nat × String} {v : SignerView}
    (h : build members threshold = .ok d) (hholder : holder ∈ holders 0 members)
    (hslot : v.slot = Slot.ofKeyIndex holder.1)
    (hsealed : withChecksum (body ((members.map SignerKeyPair.publicKey).set holder.1 holder.2)
      threshold) = .ok v.descriptor)
    (hown : ∃ own, parse v.descriptor = .ok own ∧ own.challenge = d.challenge) :
    ViewOf members d holder v := by
  obtain ⟨own, hparse, hchallenge⟩ := hown
  obtain ⟨_, hpublic, hlocal, _⟩ := build_eq_ok_iff.1 h
  have hlt := lt_of_mem_holders hholder
  obtain ⟨first, rest, hkeys⟩ : ∃ first rest, members.map SignerKeyPair.publicKey = first :: rest :=
    List.exists_cons_of_length_pos (by rw [List.length_map]; omega)
  obtain ⟨first', rest', hset⟩ : ∃ first' rest',
      (members.map SignerKeyPair.publicKey).set holder.1 holder.2 = first' :: rest' :=
    List.exists_cons_of_length_pos (by rw [List.length_set, List.length_map]; omega)
  rw [hkeys] at hpublic
  obtain ⟨_, read, hstated⟩ := exists_stated hpublic (.inl rfl)
  rw [hset] at hsealed
  obtain ⟨_, read', hstated'⟩ := exists_stated hparse (.inr hsealed)
  rw [← hkeys] at hstated
  rw [← hset] at hstated'
  have hbrought := localSlot_of_set (by rwa [List.length_map]) hstated' (not_holdsSecret hstated hlocal)
  rw [← List.map_take, List.forall_mem_map, ← hslot] at hbrought
  refine ⟨hslot, own, hparse, hchallenge, hbrought, Iff.trans ?_ hbrought⟩
  constructor
  · rintro ⟨signer, hsigner, hv⟩
    rw [LocalSigner.slot_of_ofDescriptor hsigner, hv]
  · exact LocalSigner.exists_ofDescriptor hparse

/-- **The views of a setup.** There is one for each member with a secret text, in key order; each is
read as a descriptor with the challenge of the quorum, and a signer of its slot can be made of it
exactly if the secret text brings a secret key there. -/
theorem views_of_build {members : List SignerKeyPair} (h : build members threshold = .ok d) :
    ∃ vs, views members threshold = .ok vs ∧
      List.Forall₂ (ViewOf members d) (holders 0 members) vs := by
  obtain ⟨_, _, _, vs, hvs, hcheck⟩ := build_eq_ok_iff.1 h
  have hcheck := checkViews_eq_ok_iff.1 hcheck
  refine ⟨vs, hvs, ?_⟩
  have hviews := viewsFrom_eq_ok_iff.1 hvs
  have hlen := hviews.length_eq
  rw [List.forall₂_iff_get] at hviews ⊢
  refine ⟨hlen, fun i hi hi' => ?_⟩
  obtain ⟨hslot, hsealed⟩ := hviews.2 i hi hi'
  exact viewOf_of_build h (List.get_mem _ _) hslot hsealed (hcheck _ (List.get_mem _ _))

/-! ## Two setups with a secret text -/

/-- The sample quorum's members; the second gives the secret key 2 in the form of a wallet. -/
def walletMembers : List SignerKeyPair := [
  ⟨none, "79be667ef9dcbbac55a06295ce870b07029bfcdb2dce28d959f2815b16f81798"⟩,
  ⟨some "cMahea7zqjxrtgAbB7LSGbcQUr1uX1ojuat9jZodMN87K7XCyj5v",
    "c6047f9441ed7d6d3045406e95c07cd85c778e4b8cef3ca7abac09b95c709ee5"⟩,
  ⟨none, "f9308a019258c31049344f85f89d5229b531c845836f99b08601f113bce036f9"⟩]

/-- The same members; the second gives the public key where the secret one belongs. -/
def secretlessMembers : List SignerKeyPair := [
  ⟨none, "79be667ef9dcbbac55a06295ce870b07029bfcdb2dce28d959f2815b16f81798"⟩,
  ⟨some "c6047f9441ed7d6d3045406e95c07cd85c778e4b8cef3ca7abac09b95c709ee5",
    "c6047f9441ed7d6d3045406e95c07cd85c778e4b8cef3ca7abac09b95c709ee5"⟩,
  ⟨none, "f9308a019258c31049344f85f89d5229b531c845836f99b08601f113bce036f9"⟩]

theorem exists_sealed {first : String} {rest : List String}
    (h : parse (body (first :: rest) threshold) = .ok d) :
    withChecksum (body (first :: rest) threshold) = .ok d.text := by
  obtain ⟨inner, hinner⟩ := exists_body_eq first rest threshold
  obtain ⟨b, p, read, hb, hread⟩ := parse_eq_ok_iff.1 h
  rw [← ((stripChecksum_framed_iff hinner).1 hb).2]
  exact hread.text

/-- A setup in which one member has a secret text. -/
theorem build_of_views {members : List SignerKeyPair} {i : Nat} {secret : String}
    (hlen : 2 ≤ members.length) (hholders : holders 0 members = [(i, secret)])
    (hparse : parse (body (members.map SignerKeyPair.publicKey) threshold) = .ok d)
    (hlocal : d.localKey = none)
    (hown : parse (body ((members.map SignerKeyPair.publicKey).set i secret) threshold) = .ok own)
    (hchallenge : own.challenge = d.challenge) :
    build members threshold = .ok d ∧
      views members threshold = .ok [⟨Slot.ofKeyIndex i, own.text⟩] := by
  obtain ⟨first, rest, hset⟩ : ∃ first rest,
      (members.map SignerKeyPair.publicKey).set i secret = first :: rest :=
    List.exists_cons_of_length_pos (by rw [List.length_set, List.length_map]; omega)
  rw [hset] at hown
  have hsealed := exists_sealed hown
  rw [← hset] at hsealed
  have hviews : views members threshold = .ok [⟨Slot.ofKeyIndex i, own.text⟩] :=
    viewsFrom_eq_ok_iff.2 (hholders ▸ .cons ⟨rfl, hsealed⟩ .nil)
  refine ⟨build_eq_ok_iff.2 ⟨hlen, hparse, hlocal, _, hviews, checkViews_eq_ok_iff.2 ?_⟩, hviews⟩
  intro v hv
  rw [List.mem_singleton.1 hv]
  exact ⟨own, parse_text hown, hchallenge⟩

theorem holders_secretless : holders 0 secretlessMembers =
    [(1, "c6047f9441ed7d6d3045406e95c07cd85c778e4b8cef3ca7abac09b95c709ee5")] := rfl

theorem holders_wallet : holders 0 walletMembers =
    [(1, "cMahea7zqjxrtgAbB7LSGbcQUr1uX1ojuat9jZodMN87K7XCyj5v")] := rfl

theorem publicKeys_secretless : secretlessMembers.map SignerKeyPair.publicKey =
    sampleMembers.map SignerKeyPair.publicKey := rfl

theorem publicKeys_wallet : walletMembers.map SignerKeyPair.publicKey =
    sampleMembers.map SignerKeyPair.publicKey := rfl

/-- The public key stands where a secret key belongs: the setup succeeds, but of the view that it
hands out no signer can be made. -/
theorem build_secretlessMembers : ∃ d v own, build secretlessMembers 1 = .ok d ∧
    views secretlessMembers 1 = .ok [v] ∧ v.slot = .script 0 ∧ parse v.descriptor = .ok own ∧
    own.localSlot = none ∧ LocalSigner.ofDescriptor own = .error (.invalidDescriptor .noPrivateKey) := by
  obtain ⟨text, hparse⟩ := Quorum.exists_parse_sample
  rw [← body_sampleMembers, ← publicKeys_secretless] at hparse
  obtain ⟨hbuild, hviews⟩ := build_of_views (by decide) holders_secretless hparse rfl hparse rfl
  have hown := parse_text hparse
  exact ⟨_, ⟨.script 0, text⟩, _, hbuild, hviews, rfl, hown, rfl, rfl⟩

theorem two_lt_groupOrder : 2 < Secp256k1.groupOrder := by decide

/-- The secret key of the second member. -/
def walletSecret : SecretKey := ⟨2, Nat.two_pos, two_lt_groupOrder⟩

/-- The key expressions of the second member's own descriptor. -/
def walletExpressions : List (String × KeyExpression) := [
  ("79be667ef9dcbbac55a06295ce870b07029bfcdb2dce28d959f2815b16f81798",
    .ofPublic Quorum.sample.internal),
  ("cMahea7zqjxrtgAbB7LSGbcQUr1uX1ojuat9jZodMN87K7XCyj5v",
    .ofSecret walletSecret),
  ("f9308a019258c31049344f85f89d5229b531c845836f99b08601f113bce036f9",
    .ofPublic (.ofNat 0xf9308a019258c31049344f85f89d5229b531c845836f99b08601f113bce036f9))]

theorem parse_wallet : KeyExpression.parse "cMahea7zqjxrtgAbB7LSGbcQUr1uX1ojuat9jZodMN87K7XCyj5v" =
    .ok (.ofSecret walletSecret) := by decide +kernel

theorem keysRead_wallet : KeysRead (walletExpressions.map Prod.fst) walletExpressions where
  texts_eq := rfl
  parsed := by
    simp only [walletExpressions, List.forall_mem_cons]
    exact ⟨by decide +kernel, parse_wallet, by decide +kernel, by simp⟩

theorem plain_wallet : ∀ k ∈ walletExpressions, Descriptor.Plain k.1 := by decide +kernel

theorem publicKeys_walletExpressions :
    walletExpressions.map (fun k => k.2.publicKey) = Quorum.sample.keys := by decide +kernel

/-- The parts of the second member's own descriptor. -/
def walletParts : Descriptor.Parts :=
  ⟨"79be667ef9dcbbac55a06295ce870b07029bfcdb2dce28d959f2815b16f81798", 1,
    ["cMahea7zqjxrtgAbB7LSGbcQUr1uX1ojuat9jZodMN87K7XCyj5v",
      "f9308a019258c31049344f85f89d5229b531c845836f99b08601f113bce036f9"]⟩

theorem findSecret_wallet :
    findSecret none 0 walletExpressions = .ok (some (.script 0, walletSecret)) := rfl

theorem exists_parse_wallet : ∃ text,
    parse (body ((walletMembers.map SignerKeyPair.publicKey).set 1
      "cMahea7zqjxrtgAbB7LSGbcQUr1uX1ojuat9jZodMN87K7XCyj5v") 1) =
        .ok ⟨text, Quorum.sample, some (.script 0, walletSecret)⟩ := by
  obtain ⟨text, _, hparse⟩ := exists_parse_render (q := Quorum.sample) (p := walletParts)
    keysRead_wallet plain_wallet findSecret_wallet publicKeys_walletExpressions rfl
  exact ⟨text, hparse⟩

theorem views_of_build_sample : ∃ d vs, build walletMembers 1 = .ok d ∧
    views walletMembers 1 = .ok vs ∧ List.Forall₂ (ViewOf walletMembers d) (holders 0 walletMembers) vs ∧
    ∀ holder ∈ holders 0 walletMembers, Brought walletMembers holder := by
  obtain ⟨text, hparse⟩ := Quorum.exists_parse_sample
  obtain ⟨ownText, hown⟩ := exists_parse_wallet
  rw [← body_sampleMembers, ← publicKeys_wallet] at hparse
  obtain ⟨hbuild, _⟩ := build_of_views (by decide) holders_wallet hparse rfl hown rfl
  obtain ⟨vs, hvs, hviews⟩ := views_of_build hbuild
  refine ⟨_, vs, hbuild, hvs, hviews, ?_⟩
  intro holder hholder
  rw [holders_wallet, List.mem_singleton] at hholder
  subst hholder
  refine (brought_iff (by decide +kernel) (by decide +kernel)).2 ?_
  exact ⟨_, parse_wallet, rfl⟩

end Setup

end SignetFederation
