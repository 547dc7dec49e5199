import Mathlib.Data.List.Basic
import SignetFederation.Descriptor.Grammar
import SignetFederation.Proofs.Outcome

/-!
# Bodies of descriptors

A body is read by stripping what stands at its ends and cutting at commas, not by matching brackets.
Still a body has at most one reading: the pieces between the commas hold none, so the first one is
the internal key, the one after the second opening is the threshold and all others are keys.

Main statements: `parts_eq_ok_iff` (what is read is exactly what has the written form),
`parts_render` (written parts read back, but for the commas inside the keys) and `of_parts_render`
(nothing else is read from them, unless what opens the leaf is read as the beginning of a key).
-/

namespace SignetFederation.Text

variable {α : Type} [DecidableEq α]

theorem afterStart?_eq_some_iff {start cs rest : List α} :
    afterStart? start cs = some rest ↔ cs = start ++ rest := by
  unfold afterStart?
  constructor
  · intro h
    split at h
    · next hstart =>
      obtain ⟨tail, rfl⟩ := List.isPrefixOf_iff_prefix.1 hstart
      rw [List.drop_left, Option.some.injEq] at h
      rw [h]
    · cases h
  · rintro rfl
    rw [if_pos (List.isPrefixOf_iff_prefix.2 (List.prefix_append start rest)), List.drop_left]

theorem beforeLast?_eq_some_iff {last : α} {cs front : List α} :
    beforeLast? last cs = some front ↔ cs = front ++ [last] := by
  unfold beforeLast?
  constructor
  · intro h
    split at h
    · next hlast =>
      obtain ⟨init, rfl⟩ := List.getLast?_eq_some_iff.1 hlast
      rw [List.dropLast_concat, Option.some.injEq] at h
      rw [h]
    · cases h
  · rintro rfl
    rw [if_pos List.getLast?_concat, List.dropLast_concat]

omit [DecidableEq α] in
/-- A mark stands behind a beginning that has none. -/
theorem isPrefix_of_append_eq {start rest before after : List α} {mark : α}
    (h : start ++ rest = before ++ mark :: after) (hstart : mark ∉ start) : start <+: before := by
  rcases List.append_eq_append_iff.1 h with ⟨more, rfl, _⟩ | ⟨_ | ⟨c, cs⟩, rfl, hmark⟩
  · exact List.prefix_append start more
  · exact ⟨[], by simp⟩
  · rw [(List.cons.inj hmark).1] at hstart
    exact absurd (List.mem_append_right before List.mem_cons_self) hstart

/-- Texts are the same only if they are the same before their first mark and behind it. -/
theorem eq_of_append_mark {before before' after after' : List α} {mark : α}
    (hbefore : mark ∉ before) (hbefore' : mark ∉ before')
    (h : before ++ mark :: after = before' ++ mark :: after') : before = before' ∧ after = after' := by
  have hcut := cutFirst_append after hbefore
  rw [h, cutFirst_append after' hbefore', Option.some.injEq, Prod.mk.injEq] at hcut
  exact ⟨hcut.1.symm, hcut.2.symm⟩

omit [DecidableEq α] in
theorem joinWith_eq_flatMap (mark : α) (f : List α) (fs : List (List α)) :
    joinWith mark (f :: fs) = f ++ fs.flatMap (mark :: ·) := by
  induction fs generalizing f with
  | nil => rw [joinWith, List.flatMap_nil, List.append_nil]
  | cons g fs ih => rw [joinWith_cons (List.cons_ne_nil g fs), ih, List.flatMap_cons]; rfl

/-- The fields of two texts with a mark between them are those of the one and those of the other. -/
theorem fields_append_mark (mark : α) (f rest : List α) :
    fields mark (f ++ mark :: rest) = fields mark f ++ fields mark rest := by
  fun_induction fields mark f with
  | case1 f hcut => rw [fields_append rest (cutFirst_eq_none_iff.1 hcut), List.singleton_append]
  | case2 f before after hcut ih =>
    obtain ⟨rfl, hbefore⟩ := eq_of_cutFirst hcut
    rw [List.append_assoc, List.cons_append, fields_append _ hbefore, ih, List.cons_append]

theorem fields_joinWith_flatMap (mark : α) (f : List α) (fs : List (List α)) :
    fields mark (joinWith mark (f :: fs)) = (f :: fs).flatMap (fields mark) := by
  induction fs generalizing f with
  | nil => rw [joinWith, List.flatMap_singleton]
  | cons g fs ih =>
    rw [joinWith_cons (List.cons_ne_nil g fs), fields_append_mark, ih, List.flatMap_cons,
      List.flatMap_cons, List.flatMap_cons]

/-- What stands before a text without a mark belongs to its first field. -/
theorem fields_append_left {mark : α} {start : List α} (hstart : mark ∉ start) (cs : List α) :
    ∃ f fs, fields mark (start ++ cs) = (start ++ f) :: fs := by
  cases hfields : fields mark cs with
  | nil => exact absurd hfields (fields_ne_nil mark cs)
  | cons f fs =>
    refine ⟨f, fs, ?_⟩
    have hmem : ∀ g ∈ f :: fs, mark ∉ g := fun g hg => not_mem_of_mem_fields (hfields ▸ hg)
    have hjoin : start ++ cs = joinWith mark ((start ++ f) :: fs) := by
      rw [joinWith_eq_flatMap, List.append_assoc, ← joinWith_eq_flatMap, ← hfields, joinWith_fields]
    rw [hjoin]
    refine fields_joinWith (List.cons_ne_nil _ _) (List.forall_mem_cons.2 ⟨?_, fun g hg =>
      hmem g (List.mem_cons_of_mem _ hg)⟩)
    rw [List.mem_append, not_or]
    exact ⟨hstart, hmem f List.mem_cons_self⟩

end SignetFederation.Text

namespace SignetFederation.Decimal

theorem read?_of_le {bound bound' n : Nat} {cs : List Char} (hle : bound ≤ bound')
    (h : read? bound cs = some n) : read? bound' cs = some n := by
  unfold read? at h ⊢
  dsimp only at h ⊢
  split at h
  · split at h
    · next hlt => rwa [if_pos (Nat.lt_of_lt_of_le hlt hle)]
    · cases h
  · cases h

/-- A printed number reads back as itself or not at all. -/
theorem eq_of_read?_toDigits {bound n m : Nat} (h : read? bound (Nat.toDigits 10 n) = some m) :
    m = n := by
  have hlarge := read?_of_le (Nat.le_add_right bound (n + 1)) h
  rw [read?_toDigits (by omega)] at hlarge
  exact (Option.some.inj hlarge).symm

end SignetFederation.Decimal

namespace SignetFederation.Descriptor

open Text

theorem between_eq_some_iff {start : String} {last : Char} {cs inner : List Char} :
    between start last cs = some inner ↔ cs = start.toList ++ (inner ++ [last]) := by
  unfold between
  rw [Option.bind_eq_some_iff]
  simp only [afterStart?_eq_some_iff, beforeLast?_eq_some_iff]
  constructor
  · rintro ⟨_, rfl, rfl⟩
    rfl
  · rintro rfl
    exact ⟨_, rfl, rfl⟩

/-- The body with an internal key, the text of a threshold and the keys of the leaf. -/
def written (internal threshold : List Char) (keys : List (List Char)) : List Char :=
  "tr(".toList ++ (internal ++ ',' ::
    ("multi_a(".toList ++ (joinWith ',' (threshold :: keys) ++ [')'])) ++ [')'])

/-- **What a body says.** A text is read as parts exactly if it is written with them: no piece holds
a comma, and the piece for the threshold is a number of 64 bits. -/
theorem parts_eq_ok_iff {body : String} {p : Parts} :
    parts body = .ok p ↔
      ∃ internal threshold keys, body.toList = written internal threshold keys ∧
        ',' ∉ internal ∧ (∀ f ∈ threshold :: keys, ',' ∉ f) ∧
        Decimal.read? Decimal.bound64 threshold = some p.threshold ∧
        p.internal = String.ofList internal ∧ p.keys = keys.map String.ofList := by
  unfold parts
  constructor
  · intro h
    cases hinner : between "tr(" ')' body.toList with
    | none => simp only [hinner] at h; cases h
    | some inner =>
      simp only [hinner] at h
      cases hcut : cutFirst ',' inner with
      | none => simp only [hcut] at h; cases h
      | some cut =>
        obtain ⟨internal, leaf⟩ := cut
        simp only [hcut] at h
        cases hargs : between "multi_a(" ')' leaf with
        | none => simp only [hargs] at h; cases h
        | some args =>
          simp only [hargs] at h
          cases hfields : fields ',' args with
          | nil => exact absurd hfields (fields_ne_nil ',' args)
          | cons threshold keys =>
            simp only [hfields] at h
            cases hnumber : Decimal.read? Decimal.bound64 threshold with
            | none => simp only [hnumber] at h; cases h
            | some n =>
              simp only [hnumber] at h
              cases h
              obtain ⟨rfl, hinternal⟩ := eq_of_cutFirst hcut
              refine ⟨internal, threshold, keys, ?_, hinternal, ?_, hnumber, rfl, rfl⟩
              · rw [between_eq_some_iff.1 hinner, between_eq_some_iff.1 hargs, written, ← hfields,
                  joinWith_fields]
              · intro f hf
                exact not_mem_of_mem_fields (hfields ▸ hf)
  · rintro ⟨internal, threshold, keys, hbody, hinternal, hfields, hnumber, hp, hkeys⟩
    rw [written] at hbody
    have hinner := between_eq_some_iff.2 hbody
    have hargs : between "multi_a(" ')' ("multi_a(".toList ++ (joinWith ',' (threshold :: keys) ++
        [')'])) = some (joinWith ',' (threshold :: keys)) := between_eq_some_iff.2 rfl
    simp only [hinner, cutFirst_append _ hinternal, hargs, fields_joinWith (by simp) hfields, hnumber]
    obtain ⟨_, _, _⟩ := p
    simp only at hp hkeys
    rw [hp, hkeys]
    rfl

theorem exists_eq_written (internal threshold : List Char) (keys : List (List Char)) :
    ∃ inner, written internal threshold keys = "tr(".toList ++ (inner ++ [')']) := by
  rw [written, ← List.cons_append, ← List.append_assoc internal]
  exact ⟨_, rfl⟩

theorem exists_eq_of_parts {body : String} {p : Parts} (h : parts body = .ok p) :
    ∃ inner, body.toList = "tr(".toList ++ (inner ++ [')']) := by
  obtain ⟨internal, threshold, keys, hbody, _⟩ := parts_eq_ok_iff.1 h
  obtain ⟨inner, hinner⟩ := exists_eq_written internal threshold keys
  exact ⟨inner, hbody.trans hinner⟩

/-! ## Writing -/

theorem toList_toString (n : Nat) : (toString n).toList = Nat.toDigits 10 n :=
  String.toList_ofList

theorem toList_foldl_keys (keys : List String) (out : String) :
    (keys.foldl (fun out key => out ++ "," ++ key) out).toList =
      out.toList ++ (keys.map String.toList).flatMap (',' :: ·) := by
  induction keys generalizing out with
  | nil => simp
  | cons key keys ih =>
    rw [List.foldl_cons, ih]
    simp

/-- The body with the given parts, the threshold written by a text. -/
def Parts.spelled (p : Parts) (threshold : String) : String :=
  "tr(" ++ p.internal ++ ",multi_a(" ++ threshold ++
    p.keys.foldl (fun out key => out ++ "," ++ key) "" ++ "))"

theorem toList_spelled (p : Parts) (threshold : String) :
    (p.spelled threshold).toList =
      written p.internal.toList threshold.toList (p.keys.map String.toList) := by
  rw [Parts.spelled, written, joinWith_eq_flatMap]
  simp only [String.toList_append, toList_foldl_keys, String.toList_empty, List.nil_append]
  simp

theorem toList_render (p : Parts) :
    p.render.toList = written p.internal.toList (Nat.toDigits 10 p.threshold)
      (p.keys.map String.toList) := by
  rw [← toList_toString]
  exact toList_spelled p (toString p.threshold)

/-! ## Reading what was written -/

/-- The texts between the commas of a text. -/
def pieces (text : String) : List String := (fields ',' text.toList).map String.ofList

theorem pieces_of_not_mem {text : String} (h : ',' ∉ text.toList) : pieces text = [text] := by
  rw [pieces, fields_of_not_mem h, List.map_singleton, String.ofList_toList]

theorem flatMap_pieces_eq {texts : List String} (h : ∀ text ∈ texts, ',' ∉ text.toList) :
    texts.flatMap pieces = texts := by
  rw [List.flatMap_congr fun text htext => pieces_of_not_mem (h text htext)]
  exact List.flatMap_singleton' texts

theorem comma_not_mem_toDigits (n : Nat) : ',' ∉ Nat.toDigits 10 n := fun h =>
  absurd (Nat.isDigit_of_mem_toDigits (by decide) (by decide) h) (by decide)

/-- The fields behind the second opening, when parts are written. -/
theorem fields_written (threshold : Nat) (keys : List String) :
    fields ',' (joinWith ',' (Nat.toDigits 10 threshold :: keys.map String.toList)) =
      Nat.toDigits 10 threshold :: (keys.map String.toList).flatMap (fields ',') := by
  rw [fields_joinWith_flatMap, List.flatMap_cons, fields_of_not_mem (comma_not_mem_toDigits threshold),
    List.singleton_append]

/-- **Written parts read back**, the commas inside the keys apart: what stands between two of them
is read as a key. -/
theorem parts_render {p : Parts} (hinternal : ',' ∉ p.internal.toList)
    (hthreshold : p.threshold < Decimal.bound64) :
    parts p.render = .ok ⟨p.internal, p.threshold, p.keys.flatMap pieces⟩ := by
  refine parts_eq_ok_iff.2 ⟨p.internal.toList, Nat.toDigits 10 p.threshold,
    (p.keys.map String.toList).flatMap (fields ','), ?_, hinternal, ?_,
    Decimal.read?_toDigits hthreshold, String.ofList_toList.symm, ?_⟩
  · rw [toList_render, written, written, ← fields_written, joinWith_fields]
  · intro f hf
    rw [← fields_written] at hf
    exact not_mem_of_mem_fields hf
  · simp only [List.flatMap_map, List.map_flatMap]
    rfl

/-- What opens the leaf begins a field if a comma stands before it. -/
theorem exists_leaf_field (before inner : List Char) :
    ∃ f ∈ (fields ',' (before ++ ',' :: ("multi_a(".toList ++ inner))).tail,
      "multi_a(".toList <+: f := by
  obtain ⟨f, fs, hleaf⟩ := fields_append_left (by decide : ',' ∉ "multi_a(".toList) inner
  rw [fields_append_mark, hleaf]
  cases hbefore : fields ',' before with
  | nil => exact absurd hbefore (fields_ne_nil ',' before)
  | cons g gs => exact ⟨"multi_a(".toList ++ f, by simp, List.prefix_append _ _⟩

/-- Whatever is read from written parts: either the internal key is read as it was written and so are
the others, or it holds a comma, and then what opens the leaf is read as the beginning of a key. -/
theorem of_parts_render {p p' : Parts} (h : parts p.render = .ok p') :
    (',' ∉ p.internal.toList ∧ p' = ⟨p.internal, p.threshold, p.keys.flatMap pieces⟩) ∨
      ∃ key ∈ p'.keys, "multi_a(".toList <+: key.toList := by
  obtain ⟨internal, threshold, keys, hbody, hinternal, hfields, hnumber, hp, hkeys⟩ :=
    parts_eq_ok_iff.1 h
  rw [toList_render, written, written] at hbody
  have hinner := List.append_cancel_right (List.append_cancel_left hbody)
  have hread := fields_joinWith (List.cons_ne_nil threshold keys) hfields
  by_cases hcomma : ',' ∈ p.internal.toList
  · right
    obtain ⟨before, after, hsplit, hbefore⟩ := List.eq_append_cons_of_mem hcomma
    rw [hsplit, List.append_assoc, List.cons_append] at hinner
    -- the text behind that comma begins like the leaf that is read, so the written leaf is inside it
    obtain ⟨_, hafter⟩ := eq_of_append_mark hbefore hinternal hinner
    obtain ⟨more, rfl⟩ := isPrefix_of_append_eq hafter.symm (by decide)
    have hjoin : joinWith ',' (threshold :: keys) = more ++ ',' :: ("multi_a(".toList ++
        joinWith ',' (Nat.toDigits 10 p.threshold :: p.keys.map String.toList)) := by
      rw [List.append_assoc] at hafter
      refine List.append_cancel_right ((List.append_cancel_left hafter).symm.trans ?_)
      simp only [List.append_assoc, List.cons_append]
    rw [hjoin] at hread
    obtain ⟨f, hf, hleaf⟩ := exists_leaf_field more
      (joinWith ',' (Nat.toDigits 10 p.threshold :: p.keys.map String.toList))
    rw [hread, List.tail_cons] at hf
    refine ⟨String.ofList f, ?_, ?_⟩
    · rw [hkeys]
      exact List.mem_map_of_mem hf
    · rw [String.toList_ofList (l := f)]
      exact hleaf
  · left
    obtain ⟨rfl, hafter⟩ := eq_of_append_mark hcomma hinternal hinner
    have hjoin := List.append_cancel_right (List.append_cancel_left hafter)
    rw [← hjoin, fields_written, List.cons.injEq] at hread
    obtain ⟨rfl, rfl⟩ := hread
    refine ⟨hcomma, ?_⟩
    obtain ⟨_, _, _⟩ := p'
    simp only at hnumber hp hkeys
    rw [hp, hkeys, Decimal.eq_of_read?_toDigits hnumber, String.ofList_toList]
    simp only [List.flatMap_map, List.map_flatMap]
    rfl

end SignetFederation.Descriptor
