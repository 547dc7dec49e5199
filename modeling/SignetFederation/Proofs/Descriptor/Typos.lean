import SignetFederation.Proofs.Quorum.Parsing

/-!
# Mistyped descriptors

A descriptor's text ends in a checksum, and a change of one character or a swap of two neighbours is
always noticed. A change inside the body or inside the checksum leaves the mark between them in its
place, and then the checksum is wrong. The other changes need their own reasons, since a text
without a mark is read without a checksum and blanks at the ends of a text are not read at all.

All of them are excluded by looking at two places. The text as it was changed and the text before
differ at neighbouring places only (`NearMiss`), while a reading of the changed text that loses the
mark, or a blank at an end, needs differences that are further apart.
-/

namespace SignetFederation

/-! ## Typing errors -/

/-- One character is typed for another, or two neighbours are typed in the wrong order. -/
inductive Typo : List Char → List Char → Prop
  | replaced (before after : List Char) {c c' : Char} (h : c ≠ c') :
    Typo (before ++ c :: after) (before ++ c' :: after)
  | swapped (before after : List Char) {a b : Char} (h : a ≠ b) :
    Typo (before ++ a :: b :: after) (before ++ b :: a :: after)

/-- Two texts of the same length that differ, at neighbouring places only. -/
structure NearMiss (cs ds : List Char) : Prop where
  length_eq : cs.length = ds.length
  ne : cs ≠ ds
  near : ∀ i j, cs[i]? ≠ ds[i]? → cs[j]? ≠ ds[j]? → j ≤ i + 1

/-- Where rows differ that are the same around a stretch: within the stretch. -/
theorem bounds_of_getElem?_ne {before vs ws after : List Char} (hlen : vs.length = ws.length)
    {i : Nat} (h : (before ++ (vs ++ after))[i]? ≠ (before ++ (ws ++ after))[i]?) :
    before.length ≤ i ∧ i < before.length + vs.length := by
  refine ⟨Nat.le_of_not_lt fun hi => h ?_, Nat.lt_of_not_le fun hi => h ?_⟩
  · rw [List.getElem?_append_left hi, List.getElem?_append_left hi]
  · rw [List.getElem?_append_right (by omega), List.getElem?_append_right (by omega),
      List.getElem?_append_right (by omega), List.getElem?_append_right (by omega), hlen]

theorem NearMiss.of_stretch {before after : List Char} (vs ws : List Char) (hlen : vs.length = ws.length)
    (hle : vs.length ≤ 2) (hne : vs ≠ ws) :
    NearMiss (before ++ (vs ++ after)) (before ++ (ws ++ after)) where
  length_eq := by simp only [List.length_append, hlen]
  ne h := hne (List.append_cancel_right (List.append_cancel_left h))
  near i j hi hj := by
    have := bounds_of_getElem?_ne hlen hi
    have := bounds_of_getElem?_ne hlen hj
    omega

theorem Typo.nearMiss {cs ds : List Char} (h : Typo cs ds) : NearMiss cs ds := by
  cases h with
  | replaced before after h => exact .of_stretch [_] [_] rfl (by simp) (by simpa)
  | swapped before after h =>
    exact .of_stretch [_, _] [_, _] rfl (by simp) fun heq => h (List.cons.inj heq).1

/-- Rows that differ at neighbouring places only are the same around a stretch of two. -/
theorem exists_stretch {cs ds : List Char} (hlen : cs.length = ds.length)
    (hnear : ∀ i j, cs[i]? ≠ ds[i]? → cs[j]? ≠ ds[j]? → j ≤ i + 1) :
    ∃ before vs ws after, cs = before ++ (vs ++ after) ∧ ds = before ++ (ws ++ after) ∧
      vs.length = ws.length ∧ vs.length ≤ 2 := by
  induction cs generalizing ds with
  | nil =>
    obtain rfl := List.eq_nil_of_length_eq_zero hlen.symm
    exact ⟨[], [], [], [], rfl, rfl, rfl, Nat.zero_le _⟩
  | cons c cs ih =>
    obtain ⟨d, ds, rfl⟩ := List.exists_cons_of_length_eq_add_one hlen.symm
    simp only [List.length_cons, Nat.add_right_cancel_iff] at hlen
    by_cases hcd : c = d
    · subst hcd
      obtain ⟨before, vs, ws, after, rfl, rfl, hvs⟩ := ih hlen fun i j hi hj =>
        Nat.le_of_succ_le_succ (hnear (i + 1) (j + 1) (by simpa using hi) (by simpa using hj))
      exact ⟨c :: before, vs, ws, after, rfl, rfl, hvs⟩
    · -- the first place differs, so from the third on all are the same
      have hrest : cs.drop 1 = ds.drop 1 := by
        refine List.ext_getElem? fun j => ?_
        rw [List.getElem?_drop, List.getElem?_drop]
        by_contra hj
        have := hnear 0 (1 + j + 1) (by simpa using hcd) (by simpa using hj)
        omega
      refine ⟨[], c :: cs.take 1, d :: ds.take 1, cs.drop 1, ?_, ?_, ?_, ?_⟩
      · rw [List.nil_append, List.cons_append, List.take_append_drop]
      · rw [hrest, List.nil_append, List.cons_append, List.take_append_drop]
      · simp [hlen]
      · simp only [List.length_cons, List.length_take]
        omega

namespace NearMiss

open Descriptor.Checksum

variable {body sum body' sum' front back : List Char}

/-- What is right with its checksum cannot be a near miss of something else that is. -/
theorem not_sealed (hsum : ofChars body = .ok sum) (hsum' : ofChars body' = .ok sum')
    (hlen : body.length = body'.length) : ¬ NearMiss (body ++ '#' :: sum) (body' ++ '#' :: sum') := by
  intro h
  have hbody : ∀ {i : Nat}, body[i]? ≠ body'[i]? →
      i < body.length ∧ (body ++ '#' :: sum)[i]? ≠ (body' ++ '#' :: sum')[i]? := by
    intro i hi
    have hlt : i < body.length := by
      by_contra hge
      rw [List.getElem?_eq_none (by omega), List.getElem?_eq_none (by omega)] at hi
      exact hi rfl
    refine ⟨hlt, ?_⟩
    rwa [List.getElem?_append_left hlt, List.getElem?_append_left (hlen ▸ hlt)]
  by_cases heq : sum = sum'
  · subst heq
    obtain ⟨before, vs, ws, after, rfl, rfl, hvs, hle⟩ := exists_stretch hlen fun i j hi hj =>
      h.near i j (hbody hi).2 (hbody hj).2
    rw [eq_of_ofChars hvs (by omega) hsum hsum'] at h
    exact h.ne rfl
  · -- the difference in the checksum stands behind the mark, where the body cannot differ
    obtain ⟨j, hj⟩ : ∃ j, sum[j]? ≠ sum'[j]? := by
      by_contra hall
      push Not at hall
      exact heq (List.ext_getElem? hall)
    have hplace : (body ++ '#' :: sum)[body.length + (j + 1)]? ≠
        (body' ++ '#' :: sum')[body.length + (j + 1)]? := by
      rw [List.getElem?_append_right (by omega), List.getElem?_append_right (by omega), ← hlen]
      simpa using hj
    have hsame : body = body' := by
      refine List.ext_getElem? fun i => ?_
      by_contra hi
      have := h.near i _ (hbody hi).2 hplace
      have := (hbody hi).1
      omega
    rw [hsame, hsum'] at hsum
    exact heq (Except.ok.inj hsum).symm

/-- A near miss of a text that begins as a descriptor does not put blanks before one. -/
theorem eq_nil_of_front {rest rest' : List Char} (hfront : ∀ c ∈ front, Text.isBlank c = true)
    (h : NearMiss ("tr(".toList ++ rest) (front ++ ("tr(".toList ++ rest'))) : front = [] := by
  cases front with
  | nil => rfl
  | cons c front =>
    exfalso
    -- the first place differs, and so does the third, which is blank or moved
    have hfirst : ("tr(".toList ++ rest)[0]? ≠ ((c :: front) ++ ("tr(".toList ++ rest'))[0]? := by
      intro heq
      obtain rfl : 't' = c := Option.some.inj heq
      exact absurd (hfront 't' List.mem_cons_self) (by decide)
    have hthird : ("tr(".toList ++ rest)[2]? ≠ ((c :: front) ++ ("tr(".toList ++ rest'))[2]? := by
      match front with
      | [] => exact fun heq => absurd (Option.some.inj heq) (by decide)
      | [_] => exact fun heq => absurd (Option.some.inj heq) (by decide)
      | [_, d] | _ :: d :: _ :: _ =>
        intro heq
        obtain rfl : '(' = d := Option.some.inj heq
        exact absurd (hfront '(' (by simp)) (by decide)
    have := h.near 0 2 hfirst hthird
    omega

/-- What is at the end of a text cannot be changed together with anything up to the mark. -/
theorem exists_eq_append {ds : List Char} {c : Char} (hlen : sum.length = 8)
    (hsum : ∀ c ∈ sum, c ∈ symbols) (hc : c ∉ symbols)
    (h : NearMiss (body ++ '#' :: sum) (ds ++ [c])) :
    ∃ rest, ds ++ [c] = body ++ '#' :: rest ∧ rest.length = 8 := by
  have hlength := h.length_eq
  simp only [List.length_append, List.length_cons, List.length_nil, hlen] at hlength
  have hlast : (body ++ '#' :: sum)[body.length + 8]? ≠ (ds ++ [c])[body.length + 8]? := by
    have hplace : body.length + 8 = ds.length := by omega
    rw [hplace, List.getElem?_concat_length, ← hplace, List.getElem?_append_right (by omega)]
    intro heq
    rw [Nat.add_sub_cancel_left, List.getElem?_cons_succ] at heq
    exact hc (hsum c (List.mem_of_getElem? heq))
  have htake : (ds ++ [c]).take (body.length + 1) = body ++ ['#'] := by
    have hmark : (body ++ '#' :: sum).take (body.length + 1) = body ++ ['#'] := by
      rw [List.take_length_add_append]
      rfl
    rw [← hmark]
    refine List.ext_getElem? fun i => ?_
    by_contra hi
    rw [List.getElem?_take, List.getElem?_take] at hi
    split at hi
    · have := h.near i _ (Ne.symm hi) hlast
      omega
    · exact hi rfl
  refine ⟨(ds ++ [c]).drop (body.length + 1), ?_, ?_⟩
  · calc ds ++ [c] = (ds ++ [c]).take (body.length + 1) ++ (ds ++ [c]).drop (body.length + 1) :=
          (List.take_append_drop _ _).symm
      _ = body ++ '#' :: (ds ++ [c]).drop (body.length + 1) := by
          rw [htake, List.append_assoc]
          rfl
  · rw [List.length_drop, List.length_append, List.length_singleton]
    omega

theorem not_mem_symbols_of_isBlank {c : Char} (h : Text.isBlank c = true) : c ∉ symbols := by
  intro hc
  rw [Descriptor.isBlank_of_mem_symbols hc] at h
  cases h

theorem mark_not_mem_of_isBlank {cs : List Char} (h : ∀ c ∈ cs, Text.isBlank c = true) :
    '#' ∉ cs := fun hmark => absurd (h '#' hmark) (by decide)

/-- A near miss that ends in a bracket, or in blanks behind one, still has a mark. -/
theorem mark_mem {ds : List Char} (hlen : sum.length = 8) (hsum : ∀ c ∈ sum, c ∈ symbols)
    (hfront : ∀ c ∈ front, Text.isBlank c = true) (hback : ∀ c ∈ back, Text.isBlank c = true)
    (h : NearMiss (body ++ '#' :: sum) (front ++ ((ds ++ [')']) ++ back))) : '#' ∈ ds ++ [')'] := by
  obtain ⟨es, c, heq, hc⟩ : ∃ es c, front ++ ((ds ++ [')']) ++ back) = es ++ [c] ∧ c ∉ symbols := by
    rcases List.eq_nil_or_concat' back with rfl | ⟨init, c, rfl⟩
    · exact ⟨front ++ ds, ')', by simp, by decide +kernel⟩
    · exact ⟨front ++ ((ds ++ [')']) ++ init), c, by simp,
        not_mem_symbols_of_isBlank (hback c (by simp))⟩
  rw [heq] at h
  obtain ⟨rest, hrest, _⟩ := h.exists_eq_append hlen hsum hc
  have hmem : '#' ∈ front ++ ((ds ++ [')']) ++ back) := by
    rw [heq, hrest]
    simp
  rcases List.mem_append.1 hmem with hm | hm
  · exact absurd hm (mark_not_mem_of_isBlank hfront)
  · rcases List.mem_append.1 hm with hm | hm
    · exact hm
    · exact absurd hm (mark_not_mem_of_isBlank hback)

/-- A near miss does not put blanks behind a checksum. -/
theorem eq_nil_of_back (hlen : sum.length = 8) (hsum : ∀ c ∈ sum, c ∈ symbols)
    (hlen' : sum'.length = 8) (hbody : '#' ∉ body) (hbody' : '#' ∉ body')
    (hback : ∀ c ∈ back, Text.isBlank c = true)
    (h : NearMiss (body ++ '#' :: sum) (body' ++ '#' :: (sum' ++ back))) : back = [] := by
  rcases List.eq_nil_or_concat' back with rfl | ⟨init, c, rfl⟩
  · rfl
  · have hc := not_mem_symbols_of_isBlank (hback c (by simp))
    have heq : body' ++ '#' :: (sum' ++ (init ++ [c])) = body' ++ '#' :: (sum' ++ init) ++ [c] := by
      simp
    rw [heq] at h
    obtain ⟨rest, hrest, hrestLen⟩ := h.exists_eq_append hlen hsum hc
    -- the mark is the first one in both, so what follows it is as long as a checksum
    obtain ⟨_, rfl⟩ := Text.eq_of_append_mark hbody' hbody (heq.trans hrest)
    simp only [List.length_append, List.length_cons] at hrestLen
    omega

end NearMiss

namespace Descriptor

open Checksum in
/-- A near miss of a body with its checksum is not read at all. -/
theorem parts_ne_of_nearMiss {body read : String} {p p' : Parts} {sum typed : List Char}
    (hparts : parts body = .ok p) (hbody : '#' ∉ body.toList) (hsum : ofChars body.toList = .ok sum)
    (hmiss : NearMiss (body.toList ++ '#' :: sum) typed)
    (hread : stripChecksum (Text.trimmed (String.ofList typed)) = .ok read) :
    parts read ≠ .ok p' := by
  intro hparts'
  obtain ⟨inner, hinner⟩ := exists_eq_of_parts hparts
  obtain ⟨inner', hinner'⟩ := exists_eq_of_parts hparts'
  obtain ⟨hlen, hsymbols⟩ := length_and_mem_of_ofChars hsum
  obtain ⟨front, back, htyped, hfront, hback⟩ := Text.exists_eq_trim typed
  rw [stripChecksum_eq_ok_iff, Text.trimmed, String.toList_ofList, String.toList_ofList] at hread
  rcases hread with ⟨hunmarked, rfl⟩ | ⟨hunmarked, sum', hsum', htrim⟩
  · rw [String.toList_ofList, ← List.append_assoc] at hinner'
    rw [hinner'] at htyped hunmarked
    rw [htyped] at hmiss
    exact hunmarked (hmiss.mark_mem hlen hsymbols hfront hback)
  · obtain ⟨hlen', _⟩ := length_and_mem_of_ofChars hsum'
    have hfrontMark : '#' ∉ front ++ read.toList := fun hm =>
      (List.mem_append.1 hm).elim (NearMiss.mark_not_mem_of_isBlank hfront) hunmarked
    have htyped' : typed = (front ++ read.toList) ++ '#' :: (sum' ++ back) := by
      rw [htyped, htrim]
      simp only [List.append_assoc, List.cons_append]
    rw [htyped'] at hmiss
    obtain rfl := hmiss.eq_nil_of_back hlen hsymbols hlen' hbody hfrontMark hback
    rw [List.append_nil] at hmiss
    obtain rfl : front = [] := by
      rw [hinner, hinner'] at hmiss
      simp only [List.append_assoc] at hmiss
      exact hmiss.eq_nil_of_front hfront
    have hlength := hmiss.length_eq
    simp only [List.length_append, List.length_cons, List.length_nil, hlen, hlen'] at hlength
    exact NearMiss.not_sealed hsum hsum' (by omega) hmiss

end Descriptor

namespace QuorumDescriptor

/-- **A typing error is noticed.** A text that differs from a descriptor's by one replaced
character, or by two neighbours in the wrong order, is not a descriptor. -/
theorem parse_of_typo {text typed : String} {d : QuorumDescriptor} (h : parse text = .ok d)
    (htypo : Typo d.text.toList typed.toList) :
    ∃ why, parse typed = .error (.invalidDescriptor why) := by
  obtain ⟨body, p, keys, hbody, hread⟩ := parse_eq_ok_iff.1 h
  obtain ⟨sum, hsum, htext⟩ := Descriptor.withChecksum_eq_ok_iff.1 hread.text
  have hmark := Descriptor.mark_not_mem_of_stripChecksum hbody
  rw [htext] at htypo
  refine parse_eq_invalidDescriptor fun body' p' hbody' => ?_
  rw [← String.ofList_toList (s := typed)] at hbody'
  exact Descriptor.parts_ne_of_nearMiss hread.parts hmark hsum htypo.nearMiss hbody'

/-- The first two characters of the sample quorum's descriptor in the wrong order. -/
theorem parse_of_typo_sample : ∃ d typed why, parse Quorum.sample.parts.render = .ok d ∧
    Typo d.text.toList typed.toList ∧ parse typed = .error (.invalidDescriptor why) := by
  obtain ⟨text, h⟩ := Quorum.exists_parse_sample
  obtain ⟨body, p, keys, _, hread⟩ := parse_eq_ok_iff.1 h
  obtain ⟨inner, hinner⟩ := Descriptor.exists_eq_of_parts hread.parts
  obtain ⟨sum, _, htext⟩ := Descriptor.withChecksum_eq_ok_iff.1 hread.text
  have htypo : Typo text.toList
      (String.ofList ('r' :: 't' :: '(' :: (inner ++ [')'] ++ '#' :: sum))).toList := by
    rw [String.toList_ofList, htext, hinner]
    exact .swapped [] ('(' :: (inner ++ [')'] ++ '#' :: sum)) (by decide)
  obtain ⟨why, hwhy⟩ := parse_of_typo h htypo
  exact ⟨_, _, why, h, htypo, hwhy⟩

end QuorumDescriptor

end SignetFederation
