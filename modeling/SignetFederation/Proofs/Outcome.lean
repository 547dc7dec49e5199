/-!
# Computations that may fail

When a computation in steps answers with a value: every step before the last one did, and no check
refused. And when two computations go alike (`Alike`): so they do if their steps do (`Alike.bind`).
-/

namespace SignetFederation

variable {ε α β : Type}

theorem bind_eq_ok_iff {x : Except ε α} {f : α → Except ε β} {b : β} :
    (x >>= f) = .ok b ↔ ∃ a, x = .ok a ∧ f a = .ok b := by
  cases x with
  | error e =>
    constructor
    · nofun
    · rintro ⟨_, h, _⟩
      cases h
  | ok a =>
    constructor
    · exact fun h => ⟨a, rfl, h⟩
    · rintro ⟨_, ha, h⟩
      cases ha
      exact h

theorem pure_eq_ok_iff {a b : α} : (pure a : Except ε α) = .ok b ↔ b = a :=
  ⟨fun h => (Except.ok.inj h).symm, fun h => congrArg Except.ok h.symm⟩

theorem throw_bind (e : ε) (f : α → Except ε β) : ((throw e : Except ε α) >>= f) = .error e := rfl

theorem mapError_eq_ok_iff {ε' : Type} {x : Except ε α} {f : ε → ε'} {a : α} :
    x.mapError f = .ok a ↔ x = .ok a := by
  cases x with
  | error e =>
    constructor
    · nofun
    · nofun
  | ok b =>
    constructor
    · exact fun h => congrArg Except.ok (Except.ok.inj h)
    · exact fun h => congrArg Except.ok (Except.ok.inj h)

theorem map_eq_ok_iff {x : Except ε α} {f : α → β} {b : β} :
    f <$> x = .ok b ↔ ∃ a, x = .ok a ∧ b = f a := by
  cases x with
  | error e =>
    constructor
    · nofun
    · rintro ⟨_, h, _⟩
      cases h
  | ok a =>
    constructor
    · exact fun h => ⟨a, rfl, (Except.ok.inj h).symm⟩
    · rintro ⟨_, ha, rfl⟩
      cases ha
      rfl

/-- When each element gives a result, the whole list gives these results. -/
theorem exists_mapM_eq_ok {f : α → Except ε β} {as : List α} (h : ∀ a ∈ as, ∃ b, f a = .ok b) :
    ∃ bs, as.mapM f = .ok bs ∧ bs.length = as.length ∧ ∀ b, b ∈ bs ↔ ∃ a ∈ as, f a = .ok b := by
  induction as with
  | nil => exact ⟨[], rfl, rfl, fun b => by simp⟩
  | cons a as ih =>
    obtain ⟨⟨b, hb⟩, hrest⟩ := List.forall_mem_cons.1 h
    obtain ⟨bs, hbs, hlength, hmem⟩ := ih hrest
    refine ⟨b :: bs, ?_, by rw [List.length_cons, hlength, List.length_cons], fun b' => ?_⟩
    · rw [List.mapM_cons]
      exact bind_eq_ok_iff.2 ⟨b, hb, bind_eq_ok_iff.2 ⟨bs, hbs, rfl⟩⟩
    · simp only [List.mem_cons, hmem, exists_eq_or_imp, hb, Except.ok.injEq, @eq_comm β b b']

/-- A check refuses nothing exactly if what it looks for is not the case. -/
theorem ite_error_eq_ok_iff {c : Prop} [Decidable c] {e : ε} {x : Except ε α} {a : α} :
    (if c then .error e else x) = .ok a ↔ ¬ c ∧ x = .ok a := by
  by_cases hc : c <;> simp [hc]

/-- Two computations both fail, in the same way, or both answer, with values that belong together. -/
inductive Alike (R : α → β → Prop) : Except ε α → Except ε β → Prop
  | ok {a : α} {b : β} : R a b → Alike R (.ok a) (.ok b)
  | error (failure : ε) : Alike R (.error failure) (.error failure)

namespace Alike

variable {α' β' : Type} {R R' : α → β → Prop} {S : α' → β' → Prop} {x : Except ε α} {y : Except ε β}
  {f : α → Except ε α'} {g : β → Except ε β'}

theorem imp (h : Alike R x y) (himp : ∀ a b, x = .ok a → y = .ok b → R a b → R' a b) :
    Alike R' x y := by
  cases h with
  | ok h => exact .ok (himp _ _ rfl rfl h)
  | error failure => exact .error failure

theorem bind (h : Alike R x y)
    (hfg : ∀ a b, x = .ok a → y = .ok b → R a b → Alike S (f a) (g b)) :
    Alike S (x >>= f) (y >>= g) := by
  cases h with
  | ok h => exact hfg _ _ rfl rfl h
  | error failure => exact .error failure

theorem exists_right {a : α} (h : Alike R x y) (hx : x = .ok a) : ∃ b, y = .ok b ∧ R a b := by
  subst hx
  cases h with
  | ok h => exact ⟨_, rfl, h⟩

theorem exists_iff (h : Alike R x y) : (∃ a, x = .ok a) ↔ ∃ b, y = .ok b := by
  cases h with
  | ok _ => exact iff_of_true ⟨_, rfl⟩ ⟨_, rfl⟩
  | error _ => exact iff_of_false nofun nofun

end Alike

end SignetFederation
