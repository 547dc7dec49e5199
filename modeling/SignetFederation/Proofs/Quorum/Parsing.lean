import Mathlib.Data.List.TakeWhile
import SignetFederation.Proofs.Descriptor.Remainder
import SignetFederation.Proofs.Descriptor.Spelling
import SignetFederation.Proofs.Keys.Expressions
import SignetFederation.Proofs.Quorum.Slots
import SignetFederation.Quorum.Descriptor

/-!
# Reading descriptors

What each step of reading a descriptor finds: the body without its checksum
(`stripChecksum_eq_ok_iff`), the keys of the expressions (`readKeys_eq_ok_iff`), the one secret key
among them (`findSecret_eq_ok_iff`) and the quorum of the public ones. `parse_eq_ok_iff` puts
them together; from it follows that every quorum of keys on the curve has a descriptor
(`Quorum.exists_parse_parts`).
-/

namespace SignetFederation

namespace Text

/-- A row is what is left of it between the blanks at its ends. -/
theorem exists_eq_trim (cs : List Char) : ∃ front back, cs = front ++ (trim cs ++ back) ∧
    (∀ c ∈ front, isBlank c = true) ∧ ∀ c ∈ back, isBlank c = true := by
  refine ⟨cs.takeWhile isBlank, ((cs.dropWhile isBlank).reverse.takeWhile isBlank).reverse, ?_,
    fun c hc => List.mem_takeWhile_imp hc,
    fun c hc => List.mem_takeWhile_imp (List.mem_reverse.1 hc)⟩
  rw [trim, ← List.reverse_append, List.takeWhile_append_dropWhile, List.reverse_reverse,
    List.takeWhile_append_dropWhile]

theorem trim_eq_self {c e : Char} (hc : isBlank c = false) (he : isBlank e = false)
    (cs : List Char) : trim (c :: (cs ++ [e])) = c :: (cs ++ [e]) := by
  rw [trim, List.dropWhile_cons_of_neg (by rw [hc]; decide), List.reverse_cons, List.reverse_append,
    List.reverse_singleton, List.singleton_append, List.cons_append,
    List.dropWhile_cons_of_neg (by rw [he]; decide)]
  simp

end Text

/-- A quorum that is made has the keys and the threshold that were asked for. -/
theorem Quorum.of_make {internal : XOnlyKey} {signers : List XOnlyKey} {threshold : Nat}
    {q : Quorum} (h : make internal signers threshold = .ok q) :
    q.internal = internal ∧ q.signers = signers ∧ q.threshold = threshold := by
  unfold make at h
  split at h
  · split at h
    · cases h
    · dsimp only at h
      split at h
      · cases h
      · cases h
        exact ⟨rfl, rfl, rfl⟩
  · cases h

theorem Quorum.firstRepeated?_eq_none {seen keys : List XOnlyKey} (hnodup : keys.Nodup)
    (hseen : ∀ k ∈ keys, k ∉ seen) : firstRepeated? seen keys = none := by
  induction keys generalizing seen with
  | nil => rfl
  | cons k keys ih =>
    obtain ⟨hk, hkeys⟩ := List.nodup_cons.1 hnodup
    obtain ⟨hkSeen, hkeysSeen⟩ := List.forall_mem_cons.1 hseen
    rw [firstRepeated?, if_neg hkSeen]
    refine ih hkeys fun k' hk' => ?_
    rintro (_ | ⟨_, hmem⟩)
    · exact hk hk'
    · exact hkeysSeen k' hk' hmem

/-- Every quorum can be made of its own keys and threshold. -/
theorem Quorum.make_eq (q : Quorum) : make q.internal q.signers q.threshold = .ok q := by
  obtain ⟨internal, signers, threshold, hpos, hle, hmax, hnodup, script, rfl, leafHash, rfl, output,
    houtput⟩ := q
  have hrepeated := firstRepeated?_eq_none hnodup fun _ _ => List.not_mem_nil
  unfold make
  rw [dif_pos ⟨hpos, hle, hmax⟩]
  split
  · next hsome => cases hrepeated.symm.trans hsome
  · dsimp only
    split
    · next hnone => cases houtput.symm.trans hnone
    · next hsome =>
      cases houtput.symm.trans hsome
      rfl

namespace Descriptor

open Checksum

/-- The symbols of a checksum take a byte each. -/
theorem utf8ByteSize_ofList {cs : List Char} (h : ∀ c ∈ cs, c ∈ symbols) :
    (String.ofList cs).utf8ByteSize = cs.length := by
  have hsize : symbols.all (fun c => c.utf8Size == 1) = true := by decide +kernel
  induction cs with
  | nil => rfl
  | cons c cs ih =>
    obtain ⟨hc, hcs⟩ := List.forall_mem_cons.1 h
    rw [String.ofList_cons, String.utf8ByteSize_append, String.utf8ByteSize_singleton,
      eq_of_beq (List.all_eq_true.1 hsize c hc), ih hcs, List.length_cons, Nat.add_comm]

theorem checksum_eq_ok_iff {body sum : String} :
    checksum body = .ok sum ↔ ofChars body.toList = .ok sum.toList := by
  unfold checksum
  rw [bind_eq_ok_iff]
  simp only [pure_eq_ok_iff]
  constructor
  · rintro ⟨cs, hcs, rfl⟩
    rw [String.toList_ofList]
    exact hcs
  · intro h
    exact ⟨_, h, String.ofList_toList.symm⟩

theorem withChecksum_eq_ok_iff {body text : String} :
    withChecksum body = .ok text ↔
      ∃ sum, ofChars body.toList = .ok sum ∧ text.toList = body.toList ++ '#' :: sum := by
  unfold withChecksum
  rw [bind_eq_ok_iff]
  simp only [pure_eq_ok_iff, checksum_eq_ok_iff]
  constructor
  · rintro ⟨sum, hsum, rfl⟩
    exact ⟨sum.toList, hsum, by simp⟩
  · rintro ⟨sum, hsum, htext⟩
    refine ⟨String.ofList sum, by rwa [String.toList_ofList], String.toList_inj.1 ?_⟩
    rw [htext]
    simp

/-- A text is its own body if it has no mark; else the body stands before the first mark, and its
checksum and nothing else behind it. -/
theorem stripChecksum_eq_ok_iff {text body : String} :
    stripChecksum text = .ok body ↔
      ('#' ∉ text.toList ∧ body = text) ∨
        ('#' ∉ body.toList ∧
          ∃ sum, ofChars body.toList = .ok sum ∧ text.toList = body.toList ++ '#' :: sum) := by
  unfold stripChecksum
  cases hcut : Text.cutFirst '#' text.toList with
  | none =>
    have hmark := Text.cutFirst_eq_none_iff.1 hcut
    simp only [Except.ok.injEq]
    constructor
    · rintro rfl
      exact .inl ⟨hmark, rfl⟩
    · rintro (⟨_, rfl⟩ | ⟨_, sum, _, htext⟩)
      · rfl
      · rw [htext] at hmark
        simp at hmark
  | some cut =>
    obtain ⟨before, given⟩ := cut
    obtain ⟨htext, hbefore⟩ := Text.eq_of_cutFirst hcut
    simp only [throw_bind, bind_eq_ok_iff, ite_error_eq_ok_iff, pure_eq_ok_iff, checksum_eq_ok_iff,
      not_not, String.toList_ofList]
    constructor
    · rintro ⟨_, sum, hsum, hgiven, rfl⟩
      refine .inr ⟨by rwa [String.toList_ofList], given, ?_, by rw [String.toList_ofList, htext]⟩
      rw [← String.toList_inj, String.toList_ofList] at hgiven
      rwa [String.toList_ofList, hgiven]
    · rintro (⟨hmark, _⟩ | ⟨hmark, sum, hsum, htext'⟩)
      · rw [htext] at hmark
        simp at hmark
      · obtain ⟨rfl, rfl⟩ := Text.eq_of_append_mark hbefore hmark (htext.symm.trans htext')
        have hsize : (String.ofList given).utf8ByteSize = 8 := by
          obtain ⟨hlen, hsymbols⟩ := length_and_mem_of_ofChars hsum
          rw [utf8ByteSize_ofList hsymbols, hlen]
        exact ⟨hsize, String.ofList given, by rwa [String.toList_ofList], rfl,
          String.ofList_toList.symm⟩

theorem mark_not_mem_of_stripChecksum {text body : String} (h : stripChecksum text = .ok body) :
    '#' ∉ body.toList := by
  rcases stripChecksum_eq_ok_iff.1 h with ⟨hmark, rfl⟩ | ⟨hmark, _⟩
  · exact hmark
  · exact hmark

theorem isBlank_of_mem_symbols {c : Char} (h : c ∈ symbols) : Text.isBlank c = false := by
  have hsymbols : symbols.all (fun c => !Text.isBlank c) = true := by decide +kernel
  rw [← Bool.not_eq_true', List.all_eq_true.1 hsymbols c h]

/-- What has the frame of a body is not trimmed. -/
theorem trimmed_eq_self {text : String} {inner : List Char} {e : Char}
    (h : text.toList = "tr(".toList ++ (inner ++ [e])) (he : Text.isBlank e = false) :
    Text.trimmed text = text := by
  have hframe : "tr(".toList ++ (inner ++ [e]) = 't' :: (("r(".toList ++ inner) ++ [e]) := by simp
  rw [Text.trimmed, h, hframe, Text.trim_eq_self (by decide) he, ← hframe, ← h,
    String.ofList_toList]

/-- A framed text is its own body, unless it has a mark. -/
theorem stripChecksum_framed_iff {text body : String} {inner : List Char}
    (h : text.toList = "tr(".toList ++ (inner ++ [')'])) :
    stripChecksum (Text.trimmed text) = .ok body ↔ '#' ∉ text.toList ∧ body = text := by
  rw [trimmed_eq_self h (by decide), stripChecksum_eq_ok_iff]
  refine or_iff_left ?_
  rintro ⟨_, sum, hsum, htext⟩
  obtain ⟨hlen, hsymbols⟩ := length_and_mem_of_ofChars hsum
  -- the checksum would end in the bracket
  obtain ⟨init, c, rfl⟩ := (List.eq_nil_or_concat' sum).resolve_left (by rintro rfl; cases hlen)
  rw [h, ← List.append_assoc, ← List.cons_append, ← List.append_assoc] at htext
  obtain rfl : ')' = c := by simpa using (List.append_inj' htext rfl).2
  exact absurd (hsymbols ')' (by simp)) (by decide +kernel)

/-- The body of a framed text with its checksum is that text, unless it has a mark. -/
theorem stripChecksum_sealed_iff {text sealed body : String} {inner : List Char}
    (h : text.toList = "tr(".toList ++ (inner ++ [')'])) (hsealed : withChecksum text = .ok sealed) :
    stripChecksum (Text.trimmed sealed) = .ok body ↔ '#' ∉ text.toList ∧ body = text := by
  obtain ⟨sum, hsum, htext⟩ := withChecksum_eq_ok_iff.1 hsealed
  obtain ⟨hlen, hsymbols⟩ := length_and_mem_of_ofChars hsum
  have htrim : Text.trimmed sealed = sealed := by
    obtain ⟨init, c, rfl⟩ := (List.eq_nil_or_concat' sum).resolve_left (by rintro rfl; cases hlen)
    have hframe : sealed.toList = "tr(".toList ++ ((inner ++ [')'] ++ '#' :: init) ++ [c]) := by
      rw [htext, h]
      simp only [List.append_assoc, List.cons_append]
    exact trimmed_eq_self hframe (isBlank_of_mem_symbols (hsymbols c (by simp)))
  rw [htrim, stripChecksum_eq_ok_iff, htext]
  constructor
  · rintro (⟨hmark, _⟩ | ⟨hmark, sum', hsum', hbody⟩)
    · simp at hmark
    · have hlen' := (length_and_mem_of_ofChars hsum').1
      have hsame := List.append_inj' hbody (by rw [List.length_cons, List.length_cons, hlen, hlen'])
      rw [hsame.1]
      exact ⟨hmark, (String.toList_inj.1 hsame.1).symm⟩
  · rintro ⟨hmark, rfl⟩
    exact .inr ⟨hmark, sum, hsum, rfl⟩

end Descriptor

namespace QuorumDescriptor

theorem lift_eq_ok_iff {α : Type} {x : Except Descriptor.Fault α} {a : α} :
    lift x = .ok a ↔ x = .ok a := by
  cases x <;> simp [lift]

/-- The key of each expression, with its text. -/
structure KeysRead (texts : List String) (keys : List (String × KeyExpression)) : Prop where
  texts_eq : keys.map Prod.fst = texts
  parsed : ∀ k ∈ keys, KeyExpression.parse k.1 = .ok k.2

theorem readKeys_eq_ok_iff {acc keys : List (String × KeyExpression)} {texts : List String} :
    readKeys acc texts = .ok keys ↔ ∃ ks, keys = acc.reverse ++ ks ∧ KeysRead texts ks := by
  fun_induction readKeys acc texts with
  | case1 acc =>
    constructor
    · intro h
      cases h
      exact ⟨[], (List.append_nil _).symm, rfl, by simp⟩
    · rintro ⟨ks, rfl, hks⟩
      rw [List.map_eq_nil_iff.1 hks.texts_eq, List.append_nil]
  | case2 acc text rest key hkey ih =>
    rw [ih, List.reverse_cons]
    constructor
    · rintro ⟨ks, rfl, htexts, hparsed⟩
      refine ⟨(text, key) :: ks, by simp, by rw [List.map_cons, htexts], ?_⟩
      exact List.forall_mem_cons.2 ⟨hkey, hparsed⟩
    · rintro ⟨_ | ⟨⟨text', key'⟩, ks⟩, rfl, htexts, hparsed⟩
      · cases htexts
      · obtain ⟨rfl, hrest⟩ := List.cons.inj htexts
        obtain ⟨hkey', hparsedRest⟩ := List.forall_mem_cons.1 hparsed
        obtain rfl := Except.ok.inj (hkey.symm.trans hkey')
        exact ⟨ks, by simp, hrest, hparsedRest⟩
  | case3 acc text rest why hwhy =>
    constructor
    · nofun
    · rintro ⟨_ | ⟨⟨text', key'⟩, ks⟩, rfl, htexts, hparsed⟩
      · cases htexts
      · obtain ⟨rfl, _⟩ := List.cons.inj htexts
        have hkey' := (List.forall_mem_cons.1 hparsed).1
        cases hwhy.symm.trans hkey'

/-- Behind the secret key that was found there is none. -/
theorem findSecret_some_eq_ok_iff {found : Slot × SecretKey} {index : Nat}
    {keys : List (String × KeyExpression)} {localKey : Option (Slot × SecretKey)} :
    findSecret (some found) index keys = .ok localKey ↔
      (∀ k ∈ keys, k.2.secret = none) ∧ localKey = some found := by
  induction keys generalizing index with
  | nil => simp [findSecret, eq_comm]
  | cons k keys ih =>
    obtain ⟨text, key⟩ := k
    unfold findSecret
    cases hsecret : key.secret with
    | none => simp [ih, hsecret]
    | some secret => simp [hsecret]

/-- At most one expression has a secret key, and its place is the slot. -/
theorem findSecret_eq_ok_iff {index : Nat} {keys : List (String × KeyExpression)}
    {localKey : Option (Slot × SecretKey)} :
    findSecret none index keys = .ok localKey ↔
      (localKey = none ∧ ∀ k ∈ keys, k.2.secret = none) ∨
        ∃ before k after secret, keys = before ++ k :: after ∧ k.2.secret = some secret ∧
          (∀ k ∈ before ++ after, k.2.secret = none) ∧
          localKey = some (Slot.ofKeyIndex (index + before.length), secret) := by
  induction keys generalizing index with
  | nil =>
    simp only [findSecret, Except.ok.injEq, List.not_mem_nil, false_implies, implies_true, and_true]
    constructor
    · exact fun h => .inl h.symm
    · rintro (rfl | ⟨before, k, after, _, h, _⟩)
      · rfl
      · cases before <;> cases h
  | cons k keys ih =>
    obtain ⟨text, key⟩ := k
    unfold findSecret
    cases hsecret : key.secret with
    | none =>
      simp only [ih, List.forall_mem_cons, hsecret, true_and]
      refine or_congr_right ⟨?_, ?_⟩
      · rintro ⟨before, k, after, secret, rfl, hk, hrest, rfl⟩
        refine ⟨(text, key) :: before, k, after, secret, rfl, hk, ?_, ?_⟩
        · exact List.forall_mem_cons.2 ⟨hsecret, hrest⟩
        · rw [List.length_cons, Nat.add_right_comm, Nat.add_assoc]
      · rintro ⟨_ | ⟨first, before⟩, k, after, secret, hkeys, hk, hrest, rfl⟩
        · obtain ⟨rfl, rfl⟩ := List.cons.inj hkeys
          cases hsecret.symm.trans hk
        · obtain ⟨rfl, rfl⟩ := List.cons.inj hkeys
          refine ⟨before, k, after, secret, rfl, hk, (List.forall_mem_cons.1 hrest).2, ?_⟩
          rw [List.length_cons, Nat.add_right_comm, Nat.add_assoc]
    | some secret =>
      simp only [findSecret_some_eq_ok_iff, List.forall_mem_cons, hsecret, reduceCtorEq, false_and,
        and_false, false_or]
      constructor
      · rintro ⟨hrest, rfl⟩
        exact ⟨[], (text, key), keys, secret, rfl, hsecret, hrest, rfl⟩
      · rintro ⟨_ | ⟨first, before⟩, k, after, secret', hkeys, hk, hrest, rfl⟩
        · obtain ⟨rfl, rfl⟩ := List.cons.inj hkeys
          obtain rfl := Option.some.inj (hsecret.symm.trans hk)
          exact ⟨hrest, rfl⟩
        · obtain ⟨rfl, rfl⟩ := List.cons.inj hkeys
          cases hsecret.symm.trans (List.forall_mem_cons.1 hrest).1

/-- What a body with these parts gives when it is read: its expressions have these keys, the public
ones make the quorum, and the one secret key is the local one. -/
structure ReadFrom (body : String) (p : Descriptor.Parts) (keys : List (String × KeyExpression))
    (d : QuorumDescriptor) : Prop where
  parts : Descriptor.parts body = .ok p
  read : KeysRead (p.internal :: p.keys) keys
  secret : findSecret none 0 keys = .ok d.localKey
  publicKeys : keys.map (fun k => k.2.publicKey) = d.quorum.keys
  threshold : d.quorum.threshold = p.threshold
  text : Descriptor.withChecksum body = .ok d.text

/-- **What a descriptor says.** A text is read as a descriptor exactly if that is what its body
gives. -/
theorem parse_eq_ok_iff {text : String} {d : QuorumDescriptor} :
    parse text = .ok d ↔ ∃ body p keys, Descriptor.stripChecksum (Text.trimmed text) = .ok body ∧
      ReadFrom body p keys d := by
  unfold parse
  constructor
  · intro h
    obtain ⟨body, hbody, h⟩ := bind_eq_ok_iff.1 h
    obtain ⟨p, hp, h⟩ := bind_eq_ok_iff.1 h
    obtain ⟨keys, hkeys, h⟩ := bind_eq_ok_iff.1 h
    obtain ⟨localKey, hlocal, h⟩ := bind_eq_ok_iff.1 h
    obtain ⟨_, hacc, hread⟩ := readKeys_eq_ok_iff.1 hkeys
    rw [List.reverse_nil, List.nil_append] at hacc
    subst hacc
    split at h
    · cases h
    · next internal signers hpublic =>
      obtain ⟨q, hq, h⟩ := bind_eq_ok_iff.1 h
      obtain ⟨sealed, hsealed, h⟩ := bind_eq_ok_iff.1 h
      obtain rfl := pure_eq_ok_iff.1 h
      obtain ⟨hinternal, hsigners, hthreshold⟩ := Quorum.of_make hq
      refine ⟨body, p, keys, lift_eq_ok_iff.1 hbody, lift_eq_ok_iff.1 hp, hread, hlocal, ?_,
        hthreshold, lift_eq_ok_iff.1 hsealed⟩
      rw [hpublic, Quorum.keys, hinternal, hsigners]
  · rintro ⟨body, p, keys, hbody, hread⟩
    refine bind_eq_ok_iff.2 ⟨body, lift_eq_ok_iff.2 hbody, ?_⟩
    refine bind_eq_ok_iff.2 ⟨p, lift_eq_ok_iff.2 hread.parts, ?_⟩
    refine bind_eq_ok_iff.2 ⟨keys, readKeys_eq_ok_iff.2 ⟨keys, rfl, hread.read⟩, ?_⟩
    refine bind_eq_ok_iff.2 ⟨d.localKey, hread.secret, ?_⟩
    rw [hread.publicKeys, Quorum.keys, ← hread.threshold]
    refine bind_eq_ok_iff.2 ⟨d.quorum, d.quorum.make_eq, ?_⟩
    exact bind_eq_ok_iff.2 ⟨d.text, lift_eq_ok_iff.2 hread.text, rfl⟩

/-- The text of a descriptor reads as that descriptor. -/
theorem parse_text {text : String} {d : QuorumDescriptor} (h : parse text = .ok d) :
    parse d.text = .ok d := by
  obtain ⟨body, p, keys, hbody, hread⟩ := parse_eq_ok_iff.1 h
  obtain ⟨inner, hinner⟩ := Descriptor.exists_eq_of_parts hread.parts
  have hmark := Descriptor.mark_not_mem_of_stripChecksum hbody
  exact parse_eq_ok_iff.2 ⟨body, p, keys,
    (Descriptor.stripChecksum_sealed_iff hinner hread.text).2 ⟨hmark, rfl⟩, hread⟩

/-- A text without readable parts is refused as no descriptor. -/
theorem parse_eq_invalidDescriptor {text : String}
    (h : ∀ body p, Descriptor.stripChecksum (Text.trimmed text) = .ok body →
      Descriptor.parts body ≠ .ok p) : ∃ why, parse text = .error (.invalidDescriptor why) := by
  unfold parse
  cases hbody : Descriptor.stripChecksum (Text.trimmed text) with
  | error why => exact ⟨why, rfl⟩
  | ok body =>
    cases hp : Descriptor.parts body with
    | error why =>
      refine ⟨why, ?_⟩
      change (lift (Descriptor.parts body) >>= _) = _
      rw [hp]
      rfl
    | ok p => exact absurd hp (h body p hbody)

end QuorumDescriptor

/-! ## Writing descriptors -/

namespace Descriptor

open Checksum

/-- Texts that a body can hold as keys: none of their characters has a meaning between keys. -/
def Plain (text : String) : Prop :=
  ∀ c ∈ text.toList, c ≠ ',' ∧ c ≠ '#' ∧ (code? c).isSome = true

instance (text : String) : Decidable (Plain text) :=
  List.decidableBAll _ _

theorem Plain.comma_not_mem {text : String} (h : Plain text) : ',' ∉ text.toList :=
  fun hmem => (h _ hmem).1 rfl

theorem exists_codes {cs : List Char} (h : ∀ c ∈ cs, (code? c).isSome = true) :
    ∃ codes : List Nat, cs.map code? = codes.map some := by
  induction cs with
  | nil => exact ⟨[], rfl⟩
  | cons c cs ih =>
    obtain ⟨hc, hcs⟩ := List.forall_mem_cons.1 h
    obtain ⟨n, hn⟩ := Option.isSome_iff_exists.1 hc
    obtain ⟨codes, hcodes⟩ := ih hcs
    exact ⟨n :: codes, by rw [List.map_cons, List.map_cons, hn, hcodes]⟩

theorem exists_withChecksum {body : String} (h : ∀ c ∈ body.toList, (code? c).isSome = true) :
    ∃ text, withChecksum body = .ok text := by
  obtain ⟨codes, hcodes⟩ := exists_codes h
  refine ⟨body ++ "#" ++ String.ofList (symbolsOf (remainder codes)), withChecksum_eq_ok_iff.2
    ⟨symbolsOf (remainder codes), ofChars_eq_ok_iff.2 ⟨codes, hcodes, rfl⟩, ?_⟩⟩
  simp

theorem isSome_code?_of_isDigit {c : Char} (h : c.isDigit = true) : (code? c).isSome = true := by
  have hdigit : ∀ n : Fin 10, (code? (Char.ofNat (48 + n.val))).isSome = true := by
    decide +kernel
  have hrange : 48 ≤ c.toNat ∧ c.toNat ≤ 57 := Char.isDigit_iff_toNat.1 h
  have hc := hdigit ⟨c.toNat - 48, by omega⟩
  rwa [Nat.add_sub_cancel' (by omega), Char.ofNat_toNat] at hc

theorem forall_mem_written {P : Char → Prop} {internal threshold : List Char}
    {keys : List (List Char)} (hframe : ∀ c ∈ "tr(,multi_a())".toList, P c)
    (hinternal : ∀ c ∈ internal, P c) (hthreshold : ∀ c ∈ threshold, P c)
    (hkeys : ∀ k ∈ keys, ∀ c ∈ k, P c) : ∀ c ∈ written internal threshold keys, P c := by
  have hmark : P ',' := hframe ',' (by decide)
  have hbracket : P ')' := hframe ')' (by decide)
  have htail : ∀ c ∈ keys.flatMap (',' :: ·), P c := by
    intro c hc
    obtain ⟨k, hk, hc⟩ := List.mem_flatMap.1 hc
    exact List.forall_mem_cons.2 ⟨hmark, hkeys k hk⟩ c hc
  have hframe' : ∀ start : List Char, start ⊆ "tr(,multi_a())".toList → ∀ c ∈ start, P c :=
    fun start hstart c hc => hframe c (hstart hc)
  have hnil : ∀ c ∈ ([] : List Char), P c := by simp
  rw [written, Text.joinWith_eq_flatMap]
  simp only [List.forall_mem_append, List.forall_mem_cons]
  exact ⟨hframe' _ (by decide), ⟨hinternal, hmark, hframe' _ (by decide), ⟨hthreshold, htail⟩,
    hbracket, hnil⟩, hbracket, hnil⟩

/-- What is spelled with plain keys has no mark and only characters that have a code. -/
theorem plain_spelled {p : Parts} {threshold : String} {n : Nat} (hinternal : Plain p.internal)
    (hkeys : ∀ k ∈ p.keys, Plain k) (hwrites : Decimal.Writes threshold.toList n) :
    ∀ c ∈ (p.spelled threshold).toList, c ≠ '#' ∧ (code? c).isSome = true := by
  rw [toList_spelled]
  have hframe : "+tr(,multi_a())".toList.all (fun c => c != '#' && (code? c).isSome) = true := by
    decide +kernel
  have hmark : ∀ c ∈ "+tr(,multi_a())".toList, c ≠ '#' ∧ (code? c).isSome = true := fun c hc => by
    simpa using List.all_eq_true.1 hframe c hc
  refine forall_mem_written (fun c hc => hmark c (List.mem_cons_of_mem _ hc))
    (fun c hc => (hinternal c hc).2) ?_ ?_
  · intro c hc
    rcases Decimal.of_mem_writes hwrites hc with rfl | hdigit
    · exact hmark '+' List.mem_cons_self
    · refine ⟨?_, isSome_code?_of_isDigit hdigit⟩
      rintro rfl
      cases hdigit
  · intro cs hcs c hc
    obtain ⟨k, hk, rfl⟩ := List.mem_map.1 hcs
    exact (hkeys k hk c hc).2

end Descriptor

namespace QuorumDescriptor

/-- What is spelled with plain keys reads as the quorum of their public keys. -/
theorem exists_parse_spelled {p : Descriptor.Parts} {q : Quorum} {threshold : String}
    {keys : List (String × KeyExpression)} {localKey : Option (Slot × SecretKey)}
    (hread : KeysRead (p.internal :: p.keys) keys) (hplain : ∀ k ∈ keys, Descriptor.Plain k.1)
    (hsecret : findSecret none 0 keys = .ok localKey)
    (hkeys : keys.map (fun k => k.2.publicKey) = q.keys) (hthreshold : q.threshold = p.threshold)
    (hwrites : Decimal.Writes threshold.toList p.threshold) :
    ∃ text, Descriptor.withChecksum (p.spelled threshold) = .ok text ∧
      parse (p.spelled threshold) = .ok ⟨text, q, localKey⟩ := by
  have hplain' : ∀ text ∈ p.internal :: p.keys, Descriptor.Plain text := by
    intro text htext
    rw [← hread.texts_eq] at htext
    obtain ⟨k, hk, rfl⟩ := List.mem_map.1 htext
    exact hplain k hk
  obtain ⟨hinternal, hrest⟩ := List.forall_mem_cons.1 hplain'
  have hspelled := Descriptor.plain_spelled hinternal hrest hwrites
  obtain ⟨text, htext⟩ := Descriptor.exists_withChecksum fun c hc => (hspelled c hc).2
  have hbound : p.threshold < Decimal.bound64 := by
    have hle := q.threshold_le.trans q.signers_le
    rw [hthreshold, Quorum.maxSigners] at hle
    exact Nat.lt_of_le_of_lt hle (by decide)
  have hparts : Descriptor.parts (p.spelled threshold) = .ok p :=
    Descriptor.parts_eq_ok_iff_spelled.2 ⟨⟨hinternal.comma_not_mem, fun k hk =>
      (hrest k hk).comma_not_mem⟩, hbound, threshold, rfl, hwrites⟩
  obtain ⟨inner, hinner⟩ := Descriptor.exists_eq_of_parts hparts
  exact ⟨text, htext, parse_eq_ok_iff.2 ⟨p.spelled threshold, p, keys,
    (Descriptor.stripChecksum_framed_iff hinner).2 ⟨fun hmem => (hspelled _ hmem).1 rfl, rfl⟩,
    hparts, hread, hsecret, hkeys, hthreshold, htext⟩⟩

/-- What is written with plain keys reads as the quorum of their public keys. -/
theorem exists_parse_render {p : Descriptor.Parts} {q : Quorum}
    {keys : List (String × KeyExpression)} {localKey : Option (Slot × SecretKey)}
    (hread : KeysRead (p.internal :: p.keys) keys) (hplain : ∀ k ∈ keys, Descriptor.Plain k.1)
    (hsecret : findSecret none 0 keys = .ok localKey)
    (hkeys : keys.map (fun k => k.2.publicKey) = q.keys) (hthreshold : q.threshold = p.threshold) :
    ∃ text, Descriptor.withChecksum p.render = .ok text ∧
      parse p.render = .ok ⟨text, q, localKey⟩ :=
  exists_parse_spelled hread hplain hsecret hkeys hthreshold (Descriptor.writes_toString _)

end QuorumDescriptor

namespace Quorum

/-- The parts of a quorum's descriptor. -/
def parts (q : Quorum) : Descriptor.Parts :=
  ⟨q.internal.text, q.threshold, q.signers.map XOnlyKey.text⟩

theorem plain_text (k : XOnlyKey) : Descriptor.Plain k.text := by
  have hdigit : ∀ n : Fin 16, Hex.digit n.val ≠ ',' ∧ Hex.digit n.val ≠ '#' ∧
      (Descriptor.Checksum.code? (Hex.digit n.val)).isSome = true := by decide +kernel
  intro c hc
  obtain ⟨n, rfl⟩ := KeyExpression.exists_digit_of_mem_text hc
  exact hdigit n

/-- **Every quorum has a descriptor.** If its keys are on the curve, what is written with them reads
as this quorum. -/
theorem exists_parse_parts {q : Quorum}
    (h : ∀ k ∈ q.keys, (Secp256k1.lift? k.x false).isSome = true) :
    ∃ text, QuorumDescriptor.parse q.parts.render = .ok ⟨text, q, none⟩ := by
  have hread : QuorumDescriptor.KeysRead (q.parts.internal :: q.parts.keys)
      (q.keys.map fun k => (k.text, KeyExpression.ofPublic k)) :=
    ⟨by simp [parts, keys], by simpa using fun k hk => KeyExpression.parse_text (h k hk)⟩
  have hsecret : QuorumDescriptor.findSecret none 0
      (q.keys.map fun k => (k.text, KeyExpression.ofPublic k)) = .ok none :=
    QuorumDescriptor.findSecret_eq_ok_iff.2 (.inl ⟨rfl, by simp [KeyExpression.ofPublic]⟩)
  obtain ⟨text, _, htext⟩ := QuorumDescriptor.exists_parse_render (q := q) hread
    (by simpa using fun k _ => plain_text k) hsecret (List.map_map.trans (List.map_id q.keys)) rfl
  exact ⟨text, htext⟩

theorem exists_parse_sample : ∃ text, QuorumDescriptor.parse sample.parts.render =
    .ok ⟨text, sample, none⟩ := exists_parse_parts (by decide +kernel)

end Quorum

end SignetFederation
