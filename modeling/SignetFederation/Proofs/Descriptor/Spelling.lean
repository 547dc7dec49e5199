import SignetFederation.Proofs.Descriptor.Grammar

/-!
# Spellings of a body

A body determines its parts, but for one thing they do not determine the body: the threshold may be
written with a plus sign and with zeros before its digits (`Decimal.read?_eq_some_iff`). All else is
spelled in one way, whatever the pieces between the commas are: they may be empty, hold brackets, or
begin like a leaf (`written_inj`). So reading accepts exactly the spellings of parts without commas,
and rendering picks the one with the plain threshold.

Main statement: `parts_are_spellings`.
-/

namespace SignetFederation

namespace Decimal

/-- A text writes a number: a plus sign may come first, then zeros may, and then the digits of the
number come. -/
def Writes (cs : List Char) (n : Nat) : Prop :=
  ∃ (plus : Bool) (zeros : Nat),
    cs = (if plus then ['+'] else []) ++ (List.replicate zeros '0' ++ Nat.toDigits 10 n)

variable {c : Char} {cs : List Char} {acc bound d n : Nat}

theorem eq_digitChar_of_digit? (h : digit? c = some d) : d < 10 ∧ c = Nat.digitChar d := by
  unfold digit? at h
  split at h
  · next hc =>
    obtain rfl := Option.some.inj h
    refine ⟨by omega, Char.toNat_inj.1 ?_⟩
    rw [Nat.toNat_digitChar_of_lt_ten (by omega)]
    omega
  · cases h

/-- Behind a number that has begun, a row of digits goes on with its digits. -/
theorem toDigits_append_of_valueFrom (hacc : 0 < acc) (h : valueFrom acc cs = some n) :
    Nat.toDigits 10 acc ++ cs = Nat.toDigits 10 n := by
  induction cs generalizing acc with
  | nil =>
    obtain rfl := Option.some.inj h
    exact List.append_nil _
  | cons c cs ih =>
    unfold valueFrom at h
    cases hd : digit? c with
    | none =>
      rw [hd] at h
      cases h
    | some d =>
      rw [hd] at h
      obtain ⟨hlt, rfl⟩ := eq_digitChar_of_digit? hd
      have hstep := Nat.toDigits_append_toDigits (b := 10) (d := d) (by decide) hacc hlt
      rw [Nat.toDigits_of_lt_base hlt] at hstep
      calc Nat.toDigits 10 acc ++ Nat.digitChar d :: cs
          = (Nat.toDigits 10 acc ++ [Nat.digitChar d]) ++ cs := by
            rw [List.append_assoc, List.singleton_append]
        _ = Nat.toDigits 10 (10 * acc + d) ++ cs := by rw [hstep]
        _ = Nat.toDigits 10 n := ih (by omega) h

/-- Before the number has begun there are only zeros. -/
theorem exists_zeros_of_valueFrom (hne : cs ≠ []) (h : valueFrom 0 cs = some n) :
    ∃ zeros, cs = List.replicate zeros '0' ++ Nat.toDigits 10 n := by
  induction cs with
  | nil => exact absurd rfl hne
  | cons c cs ih =>
    unfold valueFrom at h
    cases hd : digit? c with
    | none =>
      rw [hd] at h
      cases h
    | some d =>
      rw [hd] at h
      change valueFrom (10 * 0 + d) cs = some n at h
      rw [Nat.mul_zero, Nat.zero_add] at h
      obtain ⟨hlt, rfl⟩ := eq_digitChar_of_digit? hd
      by_cases hzero : d = 0
      · subst hzero
        by_cases hcs : cs = []
        · subst hcs
          obtain rfl := Option.some.inj h
          exact ⟨0, rfl⟩
        · obtain ⟨zeros, rfl⟩ := ih hcs h
          exact ⟨zeros + 1, rfl⟩
      · have hdigits := toDigits_append_of_valueFrom (Nat.pos_of_ne_zero hzero) h
        rw [Nat.toDigits_of_lt_base hlt] at hdigits
        exact ⟨0, hdigits⟩

theorem valueFrom_zeros (zeros n : Nat) :
    valueFrom 0 (List.replicate zeros '0' ++ Nat.toDigits 10 n) = some n := by
  induction zeros with
  | zero => exact valueFrom_toDigits n
  | succ zeros ih => exact ih

/-- A row of digits has no plus sign to leave out. -/
theorem read?_of_value? (h : value? cs = some n) (hlt : n < bound) : read? bound cs = some n := by
  match cs with
  | '+' :: rest => simp [value?, valueFrom, digit?] at h
  | [] => cases h
  | c :: rest =>
    have hc : c ≠ '+' := by
      rintro rfl
      simp [value?, valueFrom, digit?] at h
    unfold read?
    split
    · next heq => exact absurd (List.cons.inj heq).1 hc
    · simp only [h, if_pos hlt]

/-- **What is read as a number** are its writings, if it is below the bound. -/
theorem read?_eq_some_iff : read? bound cs = some n ↔ Writes cs n ∧ n < bound := by
  have hdigits : ∀ {ds : List Char}, value? ds = some n →
      ∃ zeros, ds = List.replicate zeros '0' ++ Nat.toDigits 10 n := by
    intro ds h
    unfold value? at h
    split at h
    · cases h
    · next hne => exact exists_zeros_of_valueFrom hne h
  have hvalue : ∀ zeros, value? (List.replicate zeros '0' ++ Nat.toDigits 10 n) = some n := by
    intro zeros
    unfold value?
    rw [if_neg (by simp [Nat.toDigits_ne_nil]), valueFrom_zeros]
  constructor
  · intro h
    unfold read? at h
    dsimp only at h
    split at h
    · next m hm =>
      obtain ⟨hlt, heq⟩ := Option.ite_none_right_eq_some.1 h
      obtain rfl := Option.some.inj heq
      refine ⟨?_, hlt⟩
      split at hm
      · obtain ⟨zeros, rfl⟩ := hdigits hm
        exact ⟨true, zeros, rfl⟩
      · obtain ⟨zeros, rfl⟩ := hdigits hm
        exact ⟨false, zeros, rfl⟩
    · cases h
  · rintro ⟨⟨plus, zeros, rfl⟩, hlt⟩
    cases plus with
    | false => exact read?_of_value? (hvalue zeros) hlt
    | true =>
      unfold read?
      simp only [if_true, List.singleton_append, hvalue, if_pos hlt]

/-- A number is written with digits, and perhaps with a plus sign. -/
theorem of_mem_writes (h : Writes cs n) (hc : c ∈ cs) : c = '+' ∨ c.isDigit = true := by
  obtain ⟨plus, zeros, rfl⟩ := h
  rcases List.mem_append.1 hc with hplus | hdigits
  · cases plus with
    | false => cases hplus
    | true => exact .inl (List.mem_singleton.1 hplus)
  · refine .inr ?_
    rcases List.mem_append.1 hdigits with hzero | hdigit
    · rw [(List.mem_replicate.1 hzero).2]
      rfl
    · exact Nat.isDigit_of_mem_toDigits (by decide) (by decide) hdigit

theorem comma_not_mem_of_writes (h : Writes cs n) : ',' ∉ cs := by
  intro hc
  rcases of_mem_writes h hc with hplus | hdigit
  · cases hplus
  · cases hdigit

end Decimal

namespace Descriptor

open Text

/-- Bodies are written in one way with pieces without commas. -/
theorem written_inj {internal internal' threshold threshold' : List Char}
    {keys keys' : List (List Char)} (hinternal : ',' ∉ internal) (hinternal' : ',' ∉ internal')
    (hfields : ∀ f ∈ threshold :: keys, ',' ∉ f) (hfields' : ∀ f ∈ threshold' :: keys', ',' ∉ f)
    (h : written internal threshold keys = written internal' threshold' keys') :
    internal = internal' ∧ threshold = threshold' ∧ keys = keys' := by
  rw [written, written] at h
  have hinner := List.append_cancel_right (List.append_cancel_left h)
  obtain ⟨hsame, hleaf⟩ := eq_of_append_mark hinternal hinternal' hinner
  have hjoin := List.append_cancel_right (List.append_cancel_left hleaf)
  have hread := fields_joinWith (List.cons_ne_nil threshold keys) hfields
  rw [hjoin, fields_joinWith (List.cons_ne_nil threshold' keys') hfields'] at hread
  obtain ⟨rfl, rfl⟩ := List.cons.inj hread
  exact ⟨hsame, rfl, rfl⟩

namespace Parts

/-- No piece of the parts holds a comma. -/
structure CommaFree (p : Parts) : Prop where
  internal : ',' ∉ p.internal.toList
  keys : ∀ key ∈ p.keys, ',' ∉ key.toList

theorem CommaFree.fields {p : Parts} (h : p.CommaFree) {threshold : List Char}
    (hthreshold : ',' ∉ threshold) :
    ∀ f ∈ threshold :: p.keys.map String.toList, ',' ∉ f := by
  refine List.forall_mem_cons.2 ⟨hthreshold, fun f hf => ?_⟩
  obtain ⟨key, hkey, rfl⟩ := List.mem_map.1 hf
  exact h.keys key hkey

/-- The parts have one spelling for each text of the threshold, and share it with no others. -/
theorem spelled_inj {p p' : Parts} {threshold threshold' : String} (hp : p.CommaFree)
    (hp' : p'.CommaFree) (hthreshold : ',' ∉ threshold.toList) (hthreshold' : ',' ∉ threshold'.toList)
    (h : p.spelled threshold = p'.spelled threshold') :
    p.internal = p'.internal ∧ threshold = threshold' ∧ p.keys = p'.keys := by
  rw [← String.toList_inj, toList_spelled, toList_spelled] at h
  obtain ⟨hinternal, hthresholds, hkeys⟩ := written_inj hp.internal hp'.internal
    (hp.fields hthreshold) (hp'.fields hthreshold') h
  exact ⟨String.toList_inj.1 hinternal, String.toList_inj.1 hthresholds,
    List.map_injective_iff.2 (fun _ _ => String.toList_inj.1) hkeys⟩

end Parts

/-- What is read from a body are the parts that it is a spelling of. -/
theorem parts_eq_ok_iff_spelled {body : String} {p : Parts} :
    parts body = .ok p ↔ p.CommaFree ∧ p.threshold < Decimal.bound64 ∧
      ∃ threshold : String, body = p.spelled threshold ∧
        Decimal.Writes threshold.toList p.threshold := by
  rw [parts_eq_ok_iff]
  constructor
  · rintro ⟨internal, threshold, keys, hbody, hinternal, hfields, hnumber, hp, hkeys⟩
    obtain ⟨hwrites, hlt⟩ := Decimal.read?_eq_some_iff.1 hnumber
    have hkeys' : p.keys.map String.toList = keys := by
      rw [hkeys, List.map_map]
      exact List.map_id'' (fun _ => String.toList_ofList) keys
    have hinternal' : p.internal.toList = internal := by rw [hp, String.toList_ofList]
    refine ⟨⟨hinternal' ▸ hinternal, fun key hkey => ?_⟩, hlt, String.ofList threshold, ?_, ?_⟩
    · exact hfields _ (List.mem_cons_of_mem _ (hkeys' ▸ List.mem_map_of_mem hkey))
    · rw [← String.toList_inj, toList_spelled, hinternal', hkeys', String.toList_ofList, hbody]
    · rwa [String.toList_ofList]
  · rintro ⟨hfree, hlt, threshold, rfl, hwrites⟩
    have hcomma := Decimal.comma_not_mem_of_writes hwrites
    refine ⟨_, _, _, toList_spelled p threshold, hfree.internal, hfree.fields hcomma,
      Decimal.read?_eq_some_iff.2 ⟨hwrites, hlt⟩, String.ofList_toList.symm, ?_⟩
    rw [List.map_map]
    exact (List.map_id'' (fun _ => String.ofList_toList) p.keys).symm

/-- A number is written by its own digits. -/
theorem writes_toString (n : Nat) : Decimal.Writes (toString n).toList n :=
  ⟨false, 0, toList_toString n⟩

/-- **A body is read as parts exactly if it is a spelling of them.** A text is read as some parts if
and only if it is `tr(I,multi_a(T,K,…))` with their internal key `I` and their keys `K`, none of which
holds a comma, and with a text `T` that writes their threshold, a number of 64 bits. No other pieces
without commas make the same body. Rendered parts without commas are read back; and the rendering of
parts that were read is the body with the plain digits of the threshold in the place of `T`. -/
theorem parts_are_spellings :
    (∀ body p, parts body = .ok p ↔ p.CommaFree ∧ p.threshold < Decimal.bound64 ∧
        ∃ threshold : String, body = p.spelled threshold ∧
          Decimal.Writes threshold.toList p.threshold) ∧
      (∀ (p p' : Parts) (threshold threshold' : String), p.CommaFree → p'.CommaFree →
        ',' ∉ threshold.toList → ',' ∉ threshold'.toList →
        p.spelled threshold = p'.spelled threshold' →
        p.internal = p'.internal ∧ threshold = threshold' ∧ p.keys = p'.keys) ∧
      (∀ p : Parts, p.CommaFree → p.threshold < Decimal.bound64 → parts p.render = .ok p) ∧
      ∀ body p, parts body = .ok p → ∃ threshold : String, body = p.spelled threshold ∧
        Decimal.Writes threshold.toList p.threshold ∧
        p.render = p.spelled (toString p.threshold) ∧
        (p.render = body ↔ threshold = toString p.threshold) := by
  refine ⟨fun _ _ => parts_eq_ok_iff_spelled, fun _ _ _ _ => Parts.spelled_inj, ?_, ?_⟩
  · intro p hfree hlt
    exact parts_eq_ok_iff_spelled.2 ⟨hfree, hlt, toString p.threshold, rfl, writes_toString _⟩
  · intro body p h
    obtain ⟨hfree, -, threshold, rfl, hwrites⟩ := parts_eq_ok_iff_spelled.1 h
    have hcomma := Decimal.comma_not_mem_of_writes hwrites
    refine ⟨threshold, rfl, hwrites, rfl, ?_, ?_⟩
    · intro hsame
      have hplain : ',' ∉ (toString p.threshold).toList :=
        Decimal.comma_not_mem_of_writes (writes_toString _)
      exact (Parts.spelled_inj hfree hfree hplain hcomma hsame).2.1.symm
    · rintro rfl
      rfl

/-- Parts whose pieces hold brackets, begin like a leaf, and are empty. -/
def sampleOdd : Parts := ⟨"x)", 7, ["multi_a(1)", "", "]"]⟩

theorem parts_are_spellings_sample :
    parts "tr(x),multi_a(+007,multi_a(1),,]))" = .ok sampleOdd ∧
      sampleOdd.render = "tr(x),multi_a(7,multi_a(1),,]))" ∧
      parts sampleOdd.render = .ok sampleOdd := by
  have hfree : sampleOdd.CommaFree := ⟨by decide, by decide⟩
  have hlt : sampleOdd.threshold < Decimal.bound64 := by decide
  have hwrites : Decimal.Writes "+007".toList 7 := ⟨true, 2, by decide⟩
  obtain ⟨hread, -, hrender, -⟩ := parts_are_spellings
  exact ⟨(hread _ sampleOdd).2 ⟨hfree, hlt, "+007", by decide, hwrites⟩, by decide,
    hrender sampleOdd hfree hlt⟩

end Descriptor

end SignetFederation
