/-!
# Texts cut at a mark

A text is cut at the first occurrence of a mark, or at every one of them. Main statements: the two
parts of a first cut, put together around the mark, are the text, and the first holds no mark
(`cutFirst_eq_some_iff`); the fields of a text are the only mark-free pieces that the mark joins to
it (`joinWith_fields`, `fields_joinWith`).
-/

namespace SignetFederation.Text

variable {α : Type} [DecidableEq α]

/-- What stands before and after the first occurrence of `mark`. -/
def cutFirst (mark : α) (cs : List α) : Option (List α × List α) :=
  match cs.dropWhile (· ≠ mark) with
  | [] => none
  | _ :: after => some (cs.takeWhile (· ≠ mark), after)

/-- Fields joined by the mark. -/
def joinWith (mark : α) : List (List α) → List α
  | [] => []
  | [f] => f
  | f :: g :: rest => f ++ mark :: joinWith mark (g :: rest)

/-- The rest of a text that begins with `start`. -/
def afterStart? (start : List α) (cs : List α) : Option (List α) :=
  if start.isPrefixOf cs then some (cs.drop start.length) else none

/-- The front of a text whose last character is `last`. -/
def beforeLast? (last : α) (cs : List α) : Option (List α) :=
  if cs.getLast? = some last then some cs.dropLast else none

theorem cutFirst_append {mark : α} {before : List α} (after : List α) (h : mark ∉ before) :
    cutFirst mark (before ++ mark :: after) = some (before, after) := by
  have hall : ∀ c ∈ before, decide (c ≠ mark) = true := fun c hc => by
    simp only [decide_eq_true_eq]; rintro rfl; exact h hc
  unfold cutFirst
  rw [List.dropWhile_append_of_pos hall, List.takeWhile_append_of_pos hall]
  simp

theorem eq_of_cutFirst {mark : α} {cs before after : List α}
    (h : cutFirst mark cs = some (before, after)) : cs = before ++ mark :: after ∧ mark ∉ before := by
  unfold cutFirst at h
  split at h
  · cases h
  · rename_i c rest hdrop
    simp only [Option.some.injEq, Prod.mk.injEq] at h
    obtain ⟨rfl, rfl⟩ := h
    have hc : c = mark := by
      have := List.head?_dropWhile_not (fun x => decide (x ≠ mark)) cs
      rw [hdrop] at this
      simpa using this
    constructor
    · conv => lhs; rw [← List.takeWhile_append_dropWhile (p := fun x => decide (x ≠ mark)) (l := cs)]
      rw [hdrop, hc]
    · intro hm
      have := List.all_takeWhile (p := fun x => decide (x ≠ mark)) (l := cs)
      rw [List.all_eq_true] at this
      simpa using this mark hm

theorem cutFirst_eq_some_iff {mark : α} {cs before after : List α} :
    cutFirst mark cs = some (before, after) ↔ cs = before ++ mark :: after ∧ mark ∉ before :=
  ⟨eq_of_cutFirst, fun ⟨hcs, hm⟩ => hcs ▸ cutFirst_append after hm⟩

theorem cutFirst_eq_none_iff {mark : α} {cs : List α} : cutFirst mark cs = none ↔ mark ∉ cs := by
  constructor
  · intro h hm
    obtain ⟨before, after, rfl, hb⟩ := List.eq_append_cons_of_mem hm
    simp [cutFirst_append _ hb] at h
  · intro h
    cases hcut : cutFirst mark cs with
    | none => rfl
    | some p =>
      obtain ⟨before, after⟩ := p
      have := (eq_of_cutFirst hcut).1
      simp [this] at h

/-- The fields between the occurrences of `mark`; there is always at least one. -/
def fields (mark : α) (cs : List α) : List (List α) :=
  match _h : cutFirst mark cs with
  | none => [cs]
  | some (before, after) => before :: fields mark after
termination_by cs.length
decreasing_by
  have := (eq_of_cutFirst _h).1
  simp [this]
  omega

theorem fields_of_not_mem {mark : α} {f : List α} (h : mark ∉ f) : fields mark f = [f] := by
  unfold fields
  split
  · rfl
  · rename_i hcut
    simp [cutFirst_eq_none_iff.2 h] at hcut

theorem fields_append {mark : α} {f : List α} (rest : List α) (h : mark ∉ f) :
    fields mark (f ++ mark :: rest) = f :: fields mark rest := by
  rw [fields]
  split
  · rename_i hcut
    simp [cutFirst_append rest h] at hcut
  · rename_i hcut
    simp only [cutFirst_append rest h, Option.some.injEq, Prod.mk.injEq] at hcut
    obtain ⟨rfl, rfl⟩ := hcut
    rfl

theorem fields_ne_nil (mark : α) (cs : List α) : fields mark cs ≠ [] := by
  unfold fields
  split <;> simp

omit [DecidableEq α] in
theorem joinWith_cons {mark : α} {f : List α} {fs : List (List α)} (h : fs ≠ []) :
    joinWith mark (f :: fs) = f ++ mark :: joinWith mark fs := by
  cases fs with
  | nil => exact absurd rfl h
  | cons g more => rfl

/-- The fields are what the mark joins to the text. -/
theorem joinWith_fields (mark : α) (cs : List α) : joinWith mark (fields mark cs) = cs := by
  fun_induction fields mark cs with
  | case1 => rfl
  | case2 cs before after hcut ih =>
    rw [joinWith_cons (fields_ne_nil mark after), ih, (eq_of_cutFirst hcut).1]

theorem not_mem_of_mem_fields {mark : α} {cs f : List α} (h : f ∈ fields mark cs) : mark ∉ f := by
  fun_induction fields mark cs with
  | case1 cs hcut =>
    rw [List.mem_singleton.1 h]
    exact cutFirst_eq_none_iff.1 hcut
  | case2 cs before after hcut ih =>
    rcases List.mem_cons.1 h with rfl | h'
    · exact (eq_of_cutFirst hcut).2
    · exact ih h'

/-- Mark-free pieces are the fields of the text that they join to. -/
theorem fields_joinWith {mark : α} {fs : List (List α)} (hne : fs ≠ []) (h : ∀ f ∈ fs, mark ∉ f) :
    fields mark (joinWith mark fs) = fs := by
  induction fs with
  | nil => exact absurd rfl hne
  | cons f rest ih =>
    have hf := h f List.mem_cons_self
    cases rest with
    | nil => exact fields_of_not_mem hf
    | cons g more =>
      rw [joinWith_cons (by simp), fields_append _ hf,
        ih (by simp) fun x hx => h x (List.mem_cons_of_mem _ hx)]

end SignetFederation.Text
