import SignetFederation.Keys.Expression
import SignetFederation.Proofs.Descriptor.Grammar

/-!
# Reading key expressions

An expression goes to one reader by how it begins (`parse_eq_ok_iff`). Whatever the reader, a secret
key comes with its own public key (`publicKey_of_secret`). The hexadecimal text of a key on the curve
is an expression for it (`parse_text`), and what opens a leaf is the beginning of no expression
(`parse_ne_of_leaf`).
-/

namespace SignetFederation.KeyExpression

/-! ## The reader of an expression -/

/-- The key that an expression without an origin stands for, by its base and the steps below it. -/
def ofBase (base : List Char) (suffix : Option (List Char)) : Except KeyFault KeyExpression :=
  if "xpub".toList.isPrefixOf base || "tpub".toList.isPrefixOf base then
    ofExtendedPublic (String.ofList base) suffix
  else if "xprv".toList.isPrefixOf base || "tprv".toList.isPrefixOf base then
    ofExtendedSecret (String.ofList base) suffix
  else if suffix.isSome then .error .stepsBelowPlainKey
  else if base.all Hex.isDigit then ofHex (String.ofList base)
  else ofSecret <$> orUnreadable "secret key" (walletImport? (String.ofList base))

theorem parse_eq_ok_iff {s : String} {k : KeyExpression} :
    parse s = .ok k ↔ ∃ key, withoutOrigin s.toList = .ok key ∧ key ≠ [] ∧ '*' ∉ key ∧
      (match Text.cutFirst '/' key with
        | some (base, suffix) => ofBase base (some suffix)
        | none => ofBase key none) = .ok k := by
  unfold parse
  rw [bind_eq_ok_iff]
  refine exists_congr fun key => and_congr_right fun _ => ?_
  by_cases hempty : key = []
  · simp only [hempty, if_true, throw_bind, reduceCtorEq, ne_eq, not_true, false_and]
  by_cases hranged : '*' ∈ key
  · simp only [hempty, hranged, if_true, if_false, throw_bind, reduceCtorEq, not_true, false_and,
      and_false]
  simp only [hempty, hranged, if_false, ne_eq, not_false_iff, true_and]
  cases Text.cutFirst '/' key with
  | none => rfl
  | some cut => rfl

/-- An expression stands for a public key alone or for a secret key. -/
theorem of_ofBase {base : List Char} {suffix : Option (List Char)} {k : KeyExpression}
    (h : ofBase base suffix = .ok k) : (∃ key, k = ofPublic key) ∨ ∃ secret, k = ofSecret secret := by
  unfold ofBase at h
  split at h
  · obtain ⟨x, _, h⟩ := bind_eq_ok_iff.1 h
    obtain ⟨path, _, h⟩ := bind_eq_ok_iff.1 h
    obtain ⟨y, _, h⟩ := bind_eq_ok_iff.1 h
    exact .inl ⟨_, pure_eq_ok_iff.1 h⟩
  split at h
  · obtain ⟨x, _, h⟩ := bind_eq_ok_iff.1 h
    obtain ⟨path, _, h⟩ := bind_eq_ok_iff.1 h
    obtain ⟨y, _, h⟩ := bind_eq_ok_iff.1 h
    exact .inr ⟨_, pure_eq_ok_iff.1 h⟩
  split at h
  · cases h
  split at h
  · obtain ⟨b, _, h⟩ := bind_eq_ok_iff.1 h
    split at h
    · obtain ⟨key, _, rfl⟩ := map_eq_ok_iff.1 h
      exact .inl ⟨key, rfl⟩
    split at h
    · obtain ⟨key, _, rfl⟩ := map_eq_ok_iff.1 h
      exact .inl ⟨key.xOnly, rfl⟩
    · cases h
  · obtain ⟨secret, _, rfl⟩ := map_eq_ok_iff.1 h
    exact .inr ⟨secret, rfl⟩

/-- The secret key of an expression is that of its public key. -/
theorem publicKey_of_secret {s : String} {k : KeyExpression} {secret : SecretKey}
    (h : parse s = .ok k) (hsecret : k.secret = some secret) : k.publicKey = secret.xOnly := by
  obtain ⟨key, _, _, _, hread⟩ := parse_eq_ok_iff.1 h
  have hcases : (∃ key, k = ofPublic key) ∨ ∃ secret, k = ofSecret secret := by
    split at hread
    · exact of_ofBase hread
    · exact of_ofBase hread
  rcases hcases with ⟨key, rfl⟩ | ⟨secret', rfl⟩
  · cases hsecret
  · cases hsecret
    rfl

theorem withoutOrigin_of_head {cs : List Char} (h : cs.head? ≠ some '[') :
    withoutOrigin cs = .ok cs := by
  unfold withoutOrigin
  split
  · exact absurd rfl h
  · rfl

theorem not_isPrefixOf_of_head {start cs : List Char} {c : Char} (h : start.head? = some c)
    (hcs : cs.head? ≠ some c) : start.isPrefixOf cs = false := by
  rw [Bool.eq_false_iff]
  intro hprefix
  obtain ⟨rest, rfl⟩ := List.isPrefixOf_iff_prefix.1 hprefix
  rw [List.head?_append, h] at hcs
  exact hcs rfl

/-- A base that does not begin like an extended key is a key in hexadecimal or a secret key. -/
theorem ofBase_of_head {base : List Char} (suffix : Option (List Char))
    (hx : base.head? ≠ some 'x') (ht : base.head? ≠ some 't') :
    ofBase base suffix = if suffix.isSome then .error .stepsBelowPlainKey
      else if base.all Hex.isDigit then ofHex (String.ofList base)
      else ofSecret <$> orUnreadable "secret key" (walletImport? (String.ofList base)) := by
  have hx' : ∀ start : List Char, start.head? = some 'x' → start.isPrefixOf base = false :=
    fun _ hstart => not_isPrefixOf_of_head hstart hx
  have ht' : ∀ start : List Char, start.head? = some 't' → start.isPrefixOf base = false :=
    fun _ hstart => not_isPrefixOf_of_head hstart ht
  rw [ofBase, hx' "xpub".toList rfl, ht' "tpub".toList rfl, hx' "xprv".toList rfl,
    ht' "tprv".toList rfl]
  rfl

/-! ## Hexadecimal text -/

theorem isDigit_digit : ∀ n : Fin 16, Hex.isDigit (Hex.digit n.val) = true := by decide

theorem exists_digit_of_mem_text {k : XOnlyKey} {c : Char} (h : c ∈ k.text.toList) :
    ∃ n : Fin 16, c = Hex.digit n.val := by
  rw [XOnlyKey.text, Hex.toList_encode] at h
  obtain ⟨x, _, hc⟩ := List.mem_flatMap.1 h
  have hx : x.toNat < 256 := x.toNat_lt
  simp only [List.mem_cons, List.not_mem_nil, or_false] at hc
  rcases hc with rfl | rfl
  · exact ⟨⟨x.toNat / 16, by omega⟩, rfl⟩
  · exact ⟨⟨x.toNat % 16, by omega⟩, rfl⟩

theorem isDigit_of_mem_text {k : XOnlyKey} {c : Char} (h : c ∈ k.text.toList) :
    Hex.isDigit c = true := by
  obtain ⟨n, rfl⟩ := exists_digit_of_mem_text h
  exact isDigit_digit n

theorem not_mem_text {k : XOnlyKey} {c : Char} (h : Hex.isDigit c = false) : c ∉ k.text.toList :=
  fun hmem => absurd (isDigit_of_mem_text hmem) (by rw [h]; decide)

theorem text_ne_nil (k : XOnlyKey) : k.text.toList ≠ [] := by
  rw [XOnlyKey.text, Hex.toList_encode]
  cases hbytes : k.bytes.toBytes with
  | nil =>
    have hlen := k.bytes.length_eq
    rw [hbytes] at hlen
    cases hlen
  | cons x bytes => simp [Hex.digits]

theorem ofHex_text {k : XOnlyKey} (h : (Secp256k1.lift? k.x false).isSome = true) :
    ofHex k.text = .ok (ofPublic k) := by
  obtain ⟨y, hy⟩ := Option.isSome_iff_exists.1 h
  have hkey : XOnlyKey.ofBytes? k.bytes.toBytes = some k := by
    rw [XOnlyKey.ofBytes?, dif_pos k.bytes.length_eq]
    exact Option.map_eq_some_iff.2 ⟨y, hy, rfl⟩
  unfold ofHex
  rw [XOnlyKey.text, Hex.decode?_encode]
  refine bind_eq_ok_iff.2 ⟨k.bytes.toBytes, rfl, ?_⟩
  rw [if_pos k.bytes.length_eq, hkey]
  rfl

/-- The hexadecimal text of a key on the curve is an expression for it. -/
theorem parse_text {k : XOnlyKey} (h : (Secp256k1.lift? k.x false).isSome = true) :
    parse k.text = .ok (ofPublic k) := by
  have hhead : ∀ {c : Char}, Hex.isDigit c = false → k.text.toList.head? ≠ some c :=
    fun hc hhead => not_mem_text hc (List.mem_of_mem_head? hhead)
  have hall : k.text.toList.all Hex.isDigit = true :=
    List.all_eq_true.2 fun c hc => isDigit_of_mem_text hc
  refine parse_eq_ok_iff.2 ⟨k.text.toList, withoutOrigin_of_head (hhead (by decide)),
    text_ne_nil k, not_mem_text (by decide), ?_⟩
  rw [Text.cutFirst_eq_none_iff.2 (not_mem_text (by decide))]
  refine (ofBase_of_head none (hhead (by decide)) (hhead (by decide))).trans ?_
  rw [if_neg (by decide), if_pos hall, String.ofList_toList]
  exact ofHex_text h

/-! ## What is no expression -/

theorem valueFrom_eq_none {cs : List Char} {c : Char} (hc : Base58.alphabet.idxOf? c = none)
    (hmem : c ∈ cs) (acc : Nat) : Base58.valueFrom acc cs = none := by
  induction cs generalizing acc with
  | nil => cases hmem
  | cons d cs ih =>
    unfold Base58.valueFrom
    split
    · next n hd =>
      rcases List.mem_cons.1 hmem with rfl | hmem
      · cases hc.symm.trans hd
      · exact ih hmem _
    · rfl

theorem walletImport?_eq_none {cs : List Char} {c : Char} (hc : Base58.alphabet.idxOf? c = none)
    (hmem : c ∈ cs) : walletImport? (String.ofList cs) = none := by
  have hdecode : Base58.decodeCheck? (String.ofList cs) = none := by
    rw [Base58.decodeCheck?, Base58.decode?, String.toList_ofList, valueFrom_eq_none hc hmem]
    rfl
  rw [walletImport?, hdecode]
  rfl

/-- What opens a leaf, whatever follows it, is not the beginning of an expression. -/
theorem parse_ne_of_leaf {s : String} {k : KeyExpression} (h : "multi_a(".toList <+: s.toList) :
    parse s ≠ .ok k := by
  intro hparse
  obtain ⟨rest, hs⟩ := h
  obtain ⟨key, horigin, _, _, hread⟩ := parse_eq_ok_iff.1 hparse
  rw [← hs, withoutOrigin_of_head (by simp), Except.ok.injEq] at horigin
  subst horigin
  have hbase : ∀ {more : List Char} {suffix : Option (List Char)},
      ofBase ("multi_a(".toList ++ more) suffix ≠ .ok k := by
    intro more suffix h
    have hdigit : ("multi_a(".toList ++ more).all Hex.isDigit = false := by
      rw [List.all_append]
      exact Bool.and_eq_false_imp.2 fun h => absurd h (by decide)
    rw [ofBase_of_head suffix (by simp) (by simp), hdigit] at h
    split at h
    · cases h
    · rw [if_neg (by decide), walletImport?_eq_none (c := '_') (by decide) (by simp)] at h
      cases h
  split at hread
  · next base suffix hcut =>
    obtain ⟨hsplit, hslash⟩ := Text.eq_of_cutFirst hcut
    -- the steps begin behind what opens the leaf
    obtain ⟨more, rfl⟩ := Text.isPrefix_of_append_eq hsplit (by decide)
    exact hbase hread
  · exact hbase hread

end SignetFederation.KeyExpression
