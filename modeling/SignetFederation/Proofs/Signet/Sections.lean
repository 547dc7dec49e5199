import SignetFederation.Proofs.Script.Reading
import SignetFederation.Signet.Commitment

/-!
# Sections in a commitment script

Putting a section into a commitment script replaces its first solution, so what was there before
does not matter (`withSection_withSection`) and the section is the solution that is found
(`solution?_withSection`). The first two instructions of a commitment are neither, so a resealed
script is still a commitment (`isCommitment_withSection`) and the search for the output finds the
same one (`lastIndex?_modify`).
-/

namespace SignetFederation

/-! ## The last element with a property -/

section LastIndex

variable {α : Type} {p : α → Bool}

theorem getElem?_of_lastIndex? {l : List α} {i : Nat} (h : lastIndex? p l = some i) :
    ∃ a, l[i]? = some a ∧ p a = true := by
  fun_induction lastIndex? p l generalizing i with
  | case1 => cases h
  | case2 a rest j hj ih =>
    cases h
    exact ih hj
  | case3 a rest hnone hp =>
    cases h
    exact ⟨a, rfl, hp⟩
  | case4 => cases h

/-- Changing the last element with a property to another one with it changes nothing. -/
theorem lastIndex?_modify {f : α → α} {l : List α} {i : Nat} (h : lastIndex? p l = some i)
    (hf : ∀ a, l[i]? = some a → p (f a) = true) : lastIndex? p (l.modify i f) = some i := by
  fun_induction lastIndex? p l generalizing i with
  | case1 => cases h
  | case2 a rest j hj ih =>
    cases h
    rw [List.modify_succ_cons, lastIndex?, ih hj hf]
  | case3 a rest hnone hp =>
    cases h
    rw [List.modify_zero_cons, lastIndex?, hnone]
    exact if_pos (hf a rfl)
  | case4 => cases h

end LastIndex

namespace Commitment

/-! ## The section among the instructions -/

/-- Whether a byte string is a section: the header and something behind it. -/
def IsSection (data : Bytes) : Prop := header.isPrefixOf data = true ∧ data.drop header.length ≠ []

theorem solutionOf?_section {data : Bytes} (h : IsSection data) :
    solutionOf? (.push data) = some (data.drop header.length) := by
  simp only [solutionOf?, h.1, if_true]
  cases hdrop : data.drop header.length with
  | nil => exact absurd hdrop h.2
  | cons => rfl

theorem not_isPlain_section {data : Bytes} (h : IsSection data) : isPlain (.push data) = false := by
  rw [isPlain, solutionOf?_section h]
  rfl

theorem isPlain_of_mem_takeWhile {is : List Instruction} {i : Instruction}
    (h : i ∈ is.takeWhile isPlain) : isPlain i = true := List.all_eq_true.1 List.all_takeWhile i h

theorem takeWhile_withSection {data : Bytes} (h : IsSection data) (is : List Instruction) :
    (withSection data is).takeWhile isPlain = is.takeWhile isPlain := by
  rw [withSection, List.takeWhile_append_of_pos fun _ => isPlain_of_mem_takeWhile,
    List.takeWhile_cons_of_neg (by rw [not_isPlain_section h]; exact Bool.false_ne_true),
    List.append_nil]

theorem dropWhile_withSection {data : Bytes} (h : IsSection data) (is : List Instruction) :
    (withSection data is).dropWhile isPlain = .push data :: (is.dropWhile isPlain).tail := by
  rw [withSection, List.dropWhile_append_of_pos fun _ => isPlain_of_mem_takeWhile,
    List.dropWhile_cons_of_neg (by rw [not_isPlain_section h]; exact Bool.false_ne_true)]

/-- A second replacement undoes the first one. -/
theorem withSection_withSection {data : Bytes} (h : IsSection data) (data' : Bytes)
    (is : List Instruction) : withSection data' (withSection data is) = withSection data' is := by
  rw [withSection, takeWhile_withSection h, dropWhile_withSection h]
  rfl

/-- The section that was put in is the solution that is found. -/
theorem solution?_withSection {data : Bytes} (h : IsSection data) (is : List Instruction) :
    solution? (withSection data is) = some (data.drop header.length) := by
  have hnone : (is.takeWhile isPlain).findSome? solutionOf? = none :=
    List.findSome?_eq_none_iff.2 fun i hi => Option.isNone_iff_eq_none.1 (isPlain_of_mem_takeWhile hi)
  rw [solution?, withSection, List.findSome?_append, hnone, Option.none_or, List.findSome?_cons,
    solutionOf?_section h]

theorem canonical_withSection {data : Bytes} (hdata : data.length < Script.pushLimit)
    {is : List Instruction} (h : ∀ i ∈ is, Script.Canonical i) :
    ∀ i ∈ withSection data is, Script.Canonical i := by
  intro i hi
  rcases List.mem_append.1 hi with hi | hi
  · exact h i ((List.takeWhile_sublist _).mem hi)
  · rcases List.mem_cons.1 hi with rfl | hi
    · exact hdata
    · exact h i ((List.dropWhile_sublist _).mem (List.mem_of_mem_tail hi))

/-! ## Resealed scripts -/

theorem resealed_eq_ok_iff {data : Bytes} {s s' : Script} :
    resealed data s = .ok s' ↔ ∃ is, Script.instructions? s = some is ∧
      s' = Script.ofInstructions (withSection data is) := by
  unfold resealed instructions
  cases Script.instructions? s with
  | none => simp [bind, Except.bind]
  | some is => simp [bind, Except.bind, pure, Except.pure, eq_comm]

/-- A resealed script reads as the instructions with the section, whatever form the pushes of the
old one had. -/
theorem instructions?_resealed {data : Bytes} (hdata : data.length < Script.pushLimit)
    {s s' : Script} {is : List Instruction} (h : resealed data s = .ok s')
    (his : Script.instructions? s = some is) :
    Script.instructions? s' = some (withSection data is) := by
  obtain ⟨is', his', rfl⟩ := resealed_eq_ok_iff.1 h
  cases his.symm.trans his'
  exact Script.instructions?_ofInstructions
    (canonical_withSection hdata (Script.canonical_of_instructions? his))

/-! ## Commitments stay commitments -/

/-- A commitment begins with a return and a push that is not a section. -/
theorem instructions?_isCommitment {s : Script} {is : List Instruction} (h : isCommitment s = true)
    (his : Script.instructions? s = some is) :
    ∃ d more, is = .op 0x6a :: .push (0xaa :: 0x21 :: 0xa9 :: 0xed :: d) :: more ∧
      d.length = 32 := by
  obtain ⟨hstart, hlen⟩ := Bool.and_eq_true_iff.1 h
  obtain ⟨t, rfl⟩ := List.isPrefixOf_iff_prefix.1 hstart
  have ht : 32 ≤ t.length := by
    simpa [outputStart] using hlen
  have hd : (t.take 32).length = 32 := by
    rw [List.length_take]
    omega
  have hpush : Script.readFirst 0x24 (0xaa :: 0x21 :: 0xa9 :: 0xed :: t) =
      some (.push (0xaa :: 0x21 :: 0xa9 :: 0xed :: t.take 32), t.drop 32) := by
    have hcut := Bytes.cut_append (0xaa :: 0x21 :: 0xa9 :: 0xed :: t.take 32) (t.drop 32)
    simp only [List.length_cons, hd, List.cons_append, List.take_append_drop] at hcut
    simp only [Script.readFirst, show (0x24 : UInt8) < 0x4c from by decide, if_true]
    exact congrArg _ hcut
  have hread : Script.instructions? (outputStart ++ t) =
      Script.readOnto (t.length + 4)
        [.push (0xaa :: 0x21 :: 0xa9 :: 0xed :: t.take 32), .op 0x6a] (t.drop 32) := by
    have hlength : (outputStart ++ t).length = t.length + 4 + 1 + 1 := by
      simp [outputStart]
    -- one unit of fuel for each of the two instructions
    rw [Script.instructions?, hlength]
    change Script.readOnto (t.length + 4 + 1) [.op 0x6a]
      (0x24 :: 0xaa :: 0x21 :: 0xa9 :: 0xed :: t) = _
    simp only [Script.readOnto, hpush]
  rw [hread] at his
  obtain ⟨more, rfl⟩ := Script.prefix_of_readOnto his
  exact ⟨t.take 32, more, rfl, hd⟩

theorem isCommitment_withSection {data : Bytes} {s : Script} {is : List Instruction}
    (h : isCommitment s = true) (his : Script.instructions? s = some is) :
    isCommitment (Script.ofInstructions (withSection data is)) = true := by
  obtain ⟨d, more, rfl, hd⟩ := instructions?_isCommitment h his
  have hsection : withSection data
      (.op 0x6a :: .push (0xaa :: 0x21 :: 0xa9 :: 0xed :: d) :: more) =
      .op 0x6a :: .push (0xaa :: 0x21 :: 0xa9 :: 0xed :: d) :: withSection data more := rfl
  have hpush : Script.push (0xaa :: 0x21 :: 0xa9 :: 0xed :: d) =
      0x24 :: 0xaa :: 0x21 :: 0xa9 :: 0xed :: d := by
    simp [Script.push, hd]
  have hscript : Script.ofInstructions (withSection data
      (.op 0x6a :: .push (0xaa :: 0x21 :: 0xa9 :: 0xed :: d) :: more)) =
      outputStart ++ (d ++ Script.ofInstructions (withSection data more)) := by
    rw [hsection, Script.ofInstructions, List.flatMap_cons, List.flatMap_cons, Script.write,
      Script.write, hpush]
    rfl
  rw [hscript, isCommitment, Bool.and_eq_true_iff]
  refine ⟨List.isPrefixOf_iff_prefix.2 (List.prefix_append _ _), decide_eq_true ?_⟩
  simp only [List.length_append, hd, outputStart, List.length_cons, List.length_nil]
  omega

end Commitment

end SignetFederation
