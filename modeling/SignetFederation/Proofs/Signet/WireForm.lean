import SignetFederation.Proofs.Wire.Decoders
import SignetFederation.Signet.Solution

/-!
# One wire form for each solution

A solution is a script and a row of items, all behind their lengths, and the row behind its count.
The reader takes each part exactly: the items as long as there is room for them
(`Witness.decodeItems_eq_ok_iff`), the witness, the solution (`Solution.exact_decode`). So a
solution whose parts keep to the vector limit reads back from its form and from nothing else, and no
form is the beginning of another one.

Main statement: `ofBytes_exact`.
-/

namespace SignetFederation

open CompactSize (encodeBytes vectorLimit length_encodeBytes)
open Decoder (Exact)

/-! ## Witnesses -/

namespace Witness

/-- The next item is taken if there is room for it and its length. -/
theorem decodeItems_succ_eq_ok_iff {n room : Nat} (hroom : room < 2 ^ 64) {acc : Witness}
    {b : Bytes} {r : Witness × Bytes} : decodeItems (n + 1) room acc b = .ok r ↔
      ∃ item rest, b = encodeBytes item ++ rest ∧ (encodeBytes item).length ≤ room ∧
        decodeItems n (room - (encodeBytes item).length) (item :: acc) rest = .ok r := by
  rw [decodeItems]
  constructor
  · intro h
    split at h
    · cases h
    · next size mid hsize =>
      obtain ⟨hfits, hmore⟩ := ite_error_eq_ok_iff.1 h
      split at hmore
      · cases hmore
      · next item rest hitem =>
        obtain ⟨rfl, rfl⟩ := Decoder.take_eq_ok_iff.1 hitem
        obtain ⟨rfl, _⟩ := (CompactSize.exact_decode _ _ _).1 hsize
        rw [← length_encodeBytes] at hfits hmore
        exact ⟨item, rest, (List.append_assoc _ _ _).symm, Nat.not_lt.1 hfits, hmore⟩
  · rintro ⟨item, rest, rfl, hfits, h⟩
    have hlength := length_encodeBytes item
    have hsize : CompactSize.decode (encodeBytes item ++ rest) = .ok (item.length, item ++ rest) :=
      (CompactSize.exact_decode _ _ _).2 ⟨List.append_assoc _ _ _, by omega⟩
    simp only [hsize, ← hlength, if_neg (Nat.not_lt.2 hfits), Decoder.take_append]
    exact h

/-- As many items are read as are asked for, if there is room for all of them. -/
theorem decodeItems_eq_ok_iff {n room : Nat} (hroom : room < 2 ^ 64) {acc w : Witness}
    {b rest : Bytes} : decodeItems n room acc b = .ok (w, rest) ↔
      ∃ items : Witness, w = acc.reverse ++ items ∧ items.length = n ∧
        b = items.flatMap encodeBytes ++ rest ∧ (items.flatMap encodeBytes).length ≤ room := by
  induction n generalizing room acc b with
  | zero =>
    rw [decodeItems]
    constructor
    · intro h
      cases h
      exact ⟨[], (List.append_nil _).symm, rfl, rfl, Nat.zero_le room⟩
    · rintro ⟨items, rfl, hnone, rfl, _⟩
      rw [List.length_eq_zero_iff.1 hnone, List.append_nil]
      rfl
  | succ n ih =>
    rw [decodeItems_succ_eq_ok_iff hroom]
    constructor
    · rintro ⟨item, mid, rfl, hfits, h⟩
      obtain ⟨items, rfl, rfl, rfl, hroom'⟩ := (ih (by omega)).1 h
      refine ⟨item :: items, by simp, rfl, (List.append_assoc _ _ _).symm, ?_⟩
      rw [List.flatMap_cons, List.length_append]
      omega
    · rintro ⟨items, rfl, hlen, rfl, hfits⟩
      obtain ⟨item, items, rfl⟩ := List.exists_cons_of_length_eq_add_one hlen
      rw [List.flatMap_cons, List.length_append] at hfits
      refine ⟨item, items.flatMap encodeBytes ++ rest, List.append_assoc _ _ _, by omega,
        (ih (by omega)).2 ⟨items, by simp, Nat.succ.inj hlen, rfl, by omega⟩⟩

/-- A witness has at most as many items as their forms have bytes. -/
theorem length_le_length_items (w : Witness) : w.length ≤ (w.flatMap encodeBytes).length := by
  induction w with
  | nil => exact Nat.zero_le _
  | cons item w ih =>
    have hpos := CompactSize.length_encode_pos item.length
    rw [List.flatMap_cons, List.length_append, List.length_cons, length_encodeBytes]
    omega

/-- A witness is read exactly if its items keep to the vector limit. -/
theorem exact_decode :
    Exact decode encode fun w => (w.flatMap encodeBytes).length ≤ vectorLimit := by
  intro b rest w
  unfold decode
  constructor
  · intro h
    split at h
    · cases h
    · next n mid hn =>
      obtain ⟨_, h⟩ := ite_error_eq_ok_iff.1 h
      obtain ⟨items, rfl, rfl, rfl, hlimit⟩ :=
        (decodeItems_eq_ok_iff (by unfold vectorLimit; omega)).1 h
      obtain ⟨rfl, _⟩ := (CompactSize.exact_decode _ _ _).1 hn
      exact ⟨(List.append_assoc _ _ _).symm, hlimit⟩
  · rintro ⟨rfl, hlimit⟩
    have hcount : w.length ≤ vectorLimit := Nat.le_trans w.length_le_length_items hlimit
    have hn : CompactSize.decode (encode w ++ rest) =
        .ok (w.length, w.flatMap encodeBytes ++ rest) :=
      (CompactSize.exact_decode _ _ _).2
        ⟨List.append_assoc _ _ _, by unfold vectorLimit at hcount; omega⟩
    simp only [hn, if_neg (Nat.not_lt.2 hcount)]
    exact (decodeItems_eq_ok_iff (by unfold vectorLimit; omega)).2 ⟨w, rfl, rfl, rfl, hlimit⟩

end Witness

/-! ## Solutions -/

namespace Solution

/-- A solution that a reader takes: its script with the length, and the forms of its items, keep to
the vector limit. -/
structure Readable (s : Solution) : Prop where
  script : (encodeBytes s.scriptSig).length ≤ vectorLimit
  items : (s.witness.flatMap encodeBytes).length ≤ vectorLimit

theorem exact_decode : Exact decode encode Readable := by
  intro b rest s
  unfold decode
  constructor
  · intro h
    split at h
    · cases h
    · next script mid hscript =>
      split at h
      · cases h
      · next w tail hw =>
        cases h
        obtain ⟨rfl, hs⟩ := (CompactSize.exact_boundedBytes _ _ _).1 hscript
        obtain ⟨rfl, hitems⟩ := (Witness.exact_decode _ _ _).1 hw
        exact ⟨(List.append_assoc _ _ _).symm, hs, hitems⟩
  · rintro ⟨rfl, hreadable⟩
    have hscript := (CompactSize.exact_boundedBytes (encode s ++ rest) _ _).2
      ⟨List.append_assoc _ _ _, hreadable.script⟩
    have hwitness := (Witness.exact_decode _ rest s.witness).2 ⟨rfl, hreadable.items⟩
    simp only [hscript, hwitness]

/-- A whole byte string is read as a solution if nothing is left over. -/
theorem ofBytes_eq_ok_iff_decode {b : Bytes} {s : Solution} :
    ofBytes b = .ok s ↔ decode b = .ok (s, []) := by
  unfold ofBytes
  constructor
  · intro h
    split at h
    · next hs =>
      cases h
      exact hs
    · cases h
    · cases h
  · intro h
    rw [h]

/-- A byte string is read as a solution exactly if it is the form of one that a reader takes. -/
theorem ofBytes_eq_ok_iff {b : Bytes} {s : Solution} :
    ofBytes b = .ok s ↔ b = s.encode ∧ s.Readable := by
  rw [ofBytes_eq_ok_iff_decode, exact_decode b [] s, List.append_nil]

/-- The same of a section, which has the header in front. -/
theorem ofCommitmentSection_eq_ok_iff {b : Bytes} {s : Solution} :
    ofCommitmentSection b = .ok s ↔ b = s.commitmentSection ∧ s.Readable := by
  unfold ofCommitmentSection commitmentSection
  constructor
  · intro h
    split at h
    · next hheader =>
      obtain ⟨body, rfl⟩ := List.isPrefixOf_iff_prefix.1 hheader
      rw [List.drop_left] at h
      obtain ⟨rfl, hreadable⟩ := ofBytes_eq_ok_iff.1 h
      exact ⟨rfl, hreadable⟩
    · cases h
  · rintro ⟨rfl, hreadable⟩
    rw [if_pos (List.isPrefixOf_iff_prefix.2 (List.prefix_append _ _)), List.drop_left]
    exact ofBytes_eq_ok_iff.2 ⟨rfl, hreadable⟩

/-- Bytes behind an accepted solution are counted and refused. -/
theorem ofBytes_append {b more : Bytes} {s : Solution} (h : ofBytes b = .ok s) (hmore : more ≠ []) :
    ofBytes (b ++ more) = .error (.block (.trailing more.length)) := by
  have hread := exact_decode.append (ofBytes_eq_ok_iff_decode.1 h) more
  obtain ⟨x, more, rfl⟩ := List.exists_cons_of_ne_nil hmore
  unfold ofBytes
  rw [hread]
  rfl

/-- An accepted solution that is cut short is not readable. -/
theorem ofBytes_of_cut {b more : Bytes} {s : Solution} (h : ofBytes (b ++ more) = .ok s)
    (hmore : more ≠ []) : ∃ why, ofBytes b = .error (.block (.unreadable why)) := by
  obtain ⟨why, hwhy⟩ := exact_decode.exists_error_of_cut (ofBytes_eq_ok_iff_decode.1 h) hmore
  refine ⟨why, ?_⟩
  unfold ofBytes
  rw [hwhy]

/-- **Solutions are exactly read.** What is read as a solution is its form. A solution whose
serialized script and witness have at most 4,000,000 bytes each reads back from its form and from
its section. An accepted byte string with bytes behind it is refused for these, and one that is cut
short is not readable. -/
theorem ofBytes_exact :
    (∀ (b : Bytes) (s : Solution), ofBytes b = .ok s → s.encode = b) ∧
      (∀ s : Solution, (CompactSize.encodeBytes s.scriptSig).length ≤ 4000000 →
        (Witness.encode s.witness).length ≤ 4000000 →
        ofBytes s.encode = .ok s ∧ ofCommitmentSection s.commitmentSection = .ok s) ∧
      (∀ (b : Bytes) (s : Solution), ofBytes b = .ok s → ∀ more : Bytes, more ≠ [] →
        ofBytes (b ++ more) = .error (.block (.trailing more.length))) ∧
      ∀ (b : Bytes) (s : Solution), ofBytes b = .ok s → ∀ front : Bytes, front <+: b → front ≠ b →
        ∃ why, ofBytes front = .error (.block (.unreadable why)) := by
  refine ⟨fun b s h => (ofBytes_eq_ok_iff.1 h).1.symm, fun s hscript hwitness => ?_,
    fun b s h more hmore => ofBytes_append h hmore, fun b s h front hfront hne => ?_⟩
  · have hitems : (s.witness.flatMap encodeBytes).length ≤ vectorLimit := by
      rw [Witness.encode, List.length_append] at hwitness
      exact Nat.le_trans (Nat.le_add_left _ _) hwitness
    have hreadable : s.Readable := ⟨hscript, hitems⟩
    exact ⟨ofBytes_eq_ok_iff.2 ⟨rfl, hreadable⟩, ofCommitmentSection_eq_ok_iff.2 ⟨rfl, hreadable⟩⟩
  · obtain ⟨more, rfl⟩ := hfront
    exact ofBytes_of_cut h fun hnone => hne (by rw [hnone, List.append_nil])

/-- A solution with a script, an empty item and one whose length takes three bytes. -/
def sampleSolution : Solution := ⟨[0x51], [[], [0x07], List.replicate 300 0xaa]⟩

/-- The sample solution, with a byte behind it and with its last byte cut off. -/
theorem ofBytes_exact_sample :
    ofBytes sampleSolution.encode = .ok sampleSolution ∧
      ofCommitmentSection sampleSolution.commitmentSection = .ok sampleSolution ∧
      ofBytes (sampleSolution.encode ++ [0x00]) = .error (.block (.trailing 1)) ∧
      sampleSolution.encode.dropLast.length = 308 ∧
      ∃ why, ofBytes sampleSolution.encode.dropLast = .error (.block (.unreadable why)) := by
  obtain ⟨_, hread, hlonger, hshorter⟩ := ofBytes_exact
  have hsize : (CompactSize.encodeBytes sampleSolution.scriptSig).length ≤ 4000000 ∧
      (Witness.encode sampleSolution.witness).length ≤ 4000000 ∧
      sampleSolution.encode.length = 309 := by
    decide +kernel
  obtain ⟨hform, hsection⟩ := hread sampleSolution hsize.1 hsize.2.1
  have hlength : sampleSolution.encode.dropLast.length = 308 := by
    rw [List.length_dropLast, hsize.2.2]
  refine ⟨hform, hsection, hlonger _ _ hform [0x00] (List.cons_ne_nil _ _), hlength,
    hshorter _ _ hform _ (List.dropLast_prefix _) fun heq => ?_⟩
  rw [heq, hsize.2.2] at hlength
  exact absurd hlength (by decide)

end Solution

end SignetFederation
