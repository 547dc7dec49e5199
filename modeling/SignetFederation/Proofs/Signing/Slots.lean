import SignetFederation.Proofs.Quorum.Slots
import SignetFederation.Signing.Round

/-!
# The slots of a signing round

What one step does to a round: a signature is put into a free slot if it is good for the slot, and
nothing else in the round changes but the copy of the signature in the PSBT. `Extends` says this of
any number of steps, and `InStep` says that slots and PSBT hold the same signatures.

Main statements: `place_eq_ok_iff` (when a signature is put into a slot), `takeAll_ok_iff` (a row of
contributions is taken exactly if all are good and no two of them, or of the round, differ for one
slot: the order of the row does not matter) and `takeAll_extends`.
-/

namespace SignetFederation

namespace Round

/-! ## Good signatures -/

/-- A signature that a slot may hold: it covers everything and verifies under the slot's key. -/
def Good (q : Quorum) (hashes : Sighashes) (slot : Slot) (s : TapSignature) : Prop :=
  s.coverage = .all ∧ ∃ key, verifyingKey? q slot = some key ∧
    Schnorr.verify key (hashes.forSlot slot) s.signature = true

theorem check_eq_ok_iff {q : Quorum} {hashes : Sighashes} {slot : Slot} {s : TapSignature} :
    check q hashes slot s = .ok () ↔ Good q hashes slot s := by
  unfold check Good
  by_cases hc : s.coverage = .all
  · cases hk : verifyingKey? q slot with
    | none => simp [hc]
    | some key => simp [hc]
  · simp [hc]

/-- Only slots of the quorum have good signatures. -/
theorem Good.keyFor {q : Quorum} {hashes : Sighashes} {slot : Slot} {s : TapSignature}
    (h : Good q hashes slot s) : ∃ key, q.keyFor slot = some key := by
  obtain ⟨_, key, hkey, _⟩ := h
  cases slot with
  | keyPath => exact ⟨_, rfl⟩
  | script n => exact ⟨key, hkey⟩

/-! ## Filling a slot -/

section Fill

variable (r : Round) (s : TapSignature) (slot : Slot)

@[simp] theorem fill_quorum : (r.fill s slot).quorum = r.quorum := by
  unfold fill
  split
  · rfl
  · cases slot <;> rfl

@[simp] theorem fill_hashes : (r.fill s slot).hashes = r.hashes := by
  unfold fill
  split
  · rfl
  · cases slot <;> rfl

@[simp] theorem fill_failure : (r.fill s slot).failure = r.failure := by
  unfold fill
  split
  · rfl
  · cases slot <;> rfl

theorem fill_psbt {key : XOnlyKey} (h : r.quorum.keyFor slot = some key) :
    (r.fill s slot).psbt = { r.psbt with
      inputs := r.psbt.inputs.modifyHead fun i => i.withSignature r.quorum slot key s } := by
  unfold fill
  rw [h]
  cases slot <;> rfl

/-- The slot holds the signature and the other slots are as before. -/
theorem signature?_fill {key : XOnlyKey} (h : r.quorum.keyFor slot = some key) (slot' : Slot) :
    (r.fill s slot).signature? slot' = if slot' = slot then some s else r.signature? slot' := by
  unfold fill
  rw [h]
  cases slot with
  | keyPath => cases slot' <;> simp [signature?]
  | script n =>
    have hn : n < r.script.length := by
      rw [r.length_script]
      exact (List.getElem?_eq_some_iff.1 h).1
    cases slot' with
    | keyPath => simp [signature?]
    | script m =>
      by_cases hm : m = n
      · subst hm
        simp [signature?, hn]
      · simp [signature?, hm, List.getElem?_set_ne (Ne.symm hm)]

end Fill

/-! ## Slots and PSBT in step -/

/-- The signatures of the PSBT's first input are those of the slots: the one for the key path, and
one entry under the signer's key and the leaf for each filled script slot. -/
def InStep (r : Round) : Prop :=
  ∃ i rest, r.psbt.inputs = i :: rest ∧ i.tapKeySignature = r.keyPath ∧
    ∀ e s, i.tapScriptSignatures.get? e = some s ↔
      e.leaf = r.quorum.leafHash ∧
        ∃ n, r.quorum.signers[n]? = some e.key ∧ r.signature? (.script n) = some s

theorem InStep.fill {r : Round} (h : r.InStep) (s : TapSignature) (slot : Slot) :
    (r.fill s slot).InStep := by
  obtain ⟨i, rest, hi, hkeyPath, hscript⟩ := h
  cases hkey : r.quorum.keyFor slot with
  | none =>
    have hr : r.fill s slot = r := by unfold Round.fill; rw [hkey]
    rw [hr]
    exact ⟨i, rest, hi, hkeyPath, hscript⟩
  | some key =>
    refine ⟨i.withSignature r.quorum slot key s, rest, by simp [fill_psbt r s slot hkey, hi], ?_, ?_⟩
    · have hslot := signature?_fill r s slot hkey .keyPath
      cases slot with
      | keyPath => simpa [signature?, Psbt.Input.withSignature] using hslot.symm
      | script n => simpa [signature?, Psbt.Input.withSignature, hkeyPath] using hslot.symm
    · intro e s'
      simp only [fill_quorum, signature?_fill r s slot hkey]
      cases slot with
      | keyPath => simpa [Psbt.Input.withSignature] using hscript e s'
      | script n =>
        simp only [Psbt.Input.withSignature, SortedMap.get?_insert, Slot.script.injEq]
        have hn : r.quorum.signers[n]? = some key := hkey
        by_cases he : e = ⟨key, r.quorum.leafHash⟩
        · subst he
          simp only [if_true, true_and]
          constructor
          · intro hs
            exact ⟨n, hn, by rw [if_pos rfl]; exact hs⟩
          · rintro ⟨m, hm, hs⟩
            rwa [if_pos (Quorum.signer_inj hm hn)] at hs
        · rw [if_neg he, hscript]
          refine and_congr_right fun hleaf => exists_congr fun m => and_congr_right fun hm => ?_
          have hmn : m ≠ n := by
            rintro rfl
            rw [hn] at hm
            cases hm
            exact he (by cases e; simp_all)
          rw [if_neg hmn]

/-! ## What steps leave as it is -/

/-- A later form of a round: signatures may have come into free slots, good ones and in the PSBT
too. Everything else is as before. -/
structure Extends (r r' : Round) : Prop where
  quorum : r'.quorum = r.quorum
  hashes : r'.hashes = r.hashes
  rest : withoutSignatures r'.psbt = withoutSignatures r.psbt
  keeps : ∀ slot s, r.signature? slot = some s → r'.signature? slot = some s
  good : ∀ slot s, r'.signature? slot = some s →
    r.signature? slot = some s ∨ Good r.quorum r.hashes slot s
  inStep : r.InStep → r'.InStep

namespace Extends

theorem refl (r : Round) : Extends r r :=
  ⟨rfl, rfl, rfl, fun _ _ h => h, fun _ _ h => .inl h, fun h => h⟩

theorem trans {a b c : Round} (hab : Extends a b) (hbc : Extends b c) : Extends a c where
  quorum := hbc.quorum.trans hab.quorum
  hashes := hbc.hashes.trans hab.hashes
  rest := hbc.rest.trans hab.rest
  keeps slot s h := hbc.keeps slot s (hab.keeps slot s h)
  good slot s h := by
    rcases hbc.good slot s h with hb | hg
    · exact hab.good slot s hb
    · rw [hab.quorum, hab.hashes] at hg
      exact .inr hg
  inStep h := hbc.inStep (hab.inStep h)

theorem fail (r : Round) (why : Error) : Extends r (r.fail why) :=
  ⟨rfl, rfl, rfl, fun slot s h => by cases slot <;> exact h,
    fun slot s h => .inl (by cases slot <;> exact h), fun h => h⟩

theorem unsigned {r r' : Round} (h : Extends r r') : r'.psbt.unsigned = r.psbt.unsigned := by
  have := congrArg Psbt.unsigned h.rest
  exact this

/-- All slots of a round that began with none filled hold good signatures. -/
theorem sound {r r' : Round} (h : Extends r r')
    (hr : ∀ slot s, r.signature? slot = some s → Good r.quorum r.hashes slot s) :
    ∀ slot s, r'.signature? slot = some s → Good r'.quorum r'.hashes slot s := by
  intro slot s hs
  rw [h.quorum, h.hashes]
  rcases h.good slot s hs with h' | h'
  · exact hr slot s h'
  · exact h'

end Extends

theorem withoutSignatures_fill (r : Round) (s : TapSignature) (slot : Slot) :
    withoutSignatures (r.fill s slot).psbt = withoutSignatures r.psbt := by
  cases hkey : r.quorum.keyFor slot with
  | none =>
    unfold fill
    rw [hkey]
  | some key =>
    rw [fill_psbt r s slot hkey]
    cases slot <;> simp [withoutSignatures, Psbt.Input.withSignature, Function.comp_def]

theorem Extends.fill {r : Round} {s : TapSignature} {slot : Slot}
    (hfree : r.signature? slot = none) (hg : Good r.quorum r.hashes slot s) :
    Extends r (r.fill s slot) := by
  obtain ⟨key, hkey⟩ := hg.keyFor
  refine ⟨by simp, by simp, withoutSignatures_fill r s slot, ?_, ?_, fun h => h.fill s slot⟩
  · intro slot' s' hs
    rw [signature?_fill r s slot hkey, if_neg]
    · exact hs
    · rintro rfl
      rw [hfree] at hs
      cases hs
  · intro slot' s' hs
    rw [signature?_fill r s slot hkey] at hs
    split at hs
    · next h =>
      cases hs
      exact .inr (h ▸ hg)
    · exact .inl hs

/-! ## Placing one signature -/

/-- A signature is put into its slot exactly if it is there already, or is good and the slot is
free. -/
theorem place_eq_ok_iff {r r' : Round} {slot : Slot} {s : TapSignature} :
    r.place slot s = .ok r' ↔
      (r.signature? slot = some s ∧ r' = r) ∨
        (r.signature? slot = none ∧ Good r.quorum r.hashes slot s ∧ r' = r.fill s slot) := by
  unfold place
  by_cases hs : r.signature? slot = some s
  · simp [hs, eq_comm]
  · cases hc : check r.quorum r.hashes slot s with
    | error why =>
      have hg : ¬ Good r.quorum r.hashes slot s := fun hg => by
        rw [check_eq_ok_iff.2 hg] at hc
        cases hc
      simp [hs, hg]
    | ok u =>
      have hg := check_eq_ok_iff.1 hc
      cases hslot : r.signature? slot with
      | none => simp [hg, eq_comm]
      | some s' =>
        rw [hslot] at hs
        simp [hs]

/-- A signature is refused exactly if the slot holds another one or it is not good. -/
theorem place_error {r : Round} {slot : Slot} {s : TapSignature} {why : Error}
    (h : r.place slot s = .error why) (hg : Good r.quorum r.hashes slot s) :
    ∃ s', r.signature? slot = some s' ∧ s' ≠ s := by
  cases hslot : r.signature? slot with
  | none =>
    rw [place_eq_ok_iff.2 (.inr ⟨hslot, hg, rfl⟩)] at h
    cases h
  | some s' =>
    refine ⟨s', rfl, ?_⟩
    rintro rfl
    rw [place_eq_ok_iff.2 (.inl ⟨hslot, rfl⟩)] at h
    cases h

theorem place_extends {r r' : Round} {slot : Slot} {s : TapSignature}
    (h : r.place slot s = .ok r') : Extends r r' := by
  rcases place_eq_ok_iff.1 h with ⟨_, rfl⟩ | ⟨hfree, hg, rfl⟩
  · exact .refl r'
  · exact .fill hfree hg

theorem place_failure {r r' : Round} {slot : Slot} {s : TapSignature}
    (h : r.place slot s = .ok r') : r'.failure = r.failure := by
  rcases place_eq_ok_iff.1 h with ⟨_, rfl⟩ | ⟨_, _, rfl⟩
  · rfl
  · simp

/-- The signatures of a round after one is placed. -/
theorem signature?_place {r r' : Round} {slot : Slot} {s : TapSignature}
    (h : r.place slot s = .ok r') (slot' : Slot) (s' : TapSignature) :
    r'.signature? slot' = some s' ↔
      r.signature? slot' = some s' ∨ (slot' = slot ∧ s' = s) := by
  rcases place_eq_ok_iff.1 h with ⟨hs, rfl⟩ | ⟨hfree, hg, rfl⟩
  · constructor
    · exact .inl
    · rintro (h' | ⟨rfl, rfl⟩)
      · exact h'
      · exact hs
  · obtain ⟨key, hkey⟩ := hg.keyFor
    rw [signature?_fill r s slot hkey]
    by_cases hslot : slot' = slot
    · subst hslot
      simp [hfree, eq_comm]
    · simp [hslot]

/-! ## Taking a row of contributions -/

/-- A row is taken part by part: what comes later is only looked at if nothing before it is wrong. -/
theorem takeAll_append (r : Round) (cs ds : List (Except Error (Slot × TapSignature))) :
    r.takeAll (cs ++ ds) =
      match r.takeAll cs with
      | (r', .ok ()) => r'.takeAll ds
      | (r', .error why) => (r', .error why) := by
  fun_induction takeAll r cs with
  | case1 r => rfl
  | case2 r why rest => rfl
  | case3 r slot s rest r' hplace ih => simp only [List.cons_append, takeAll, hplace, ih]
  | case4 r slot s rest why hplace => simp only [List.cons_append, takeAll, hplace]

theorem takeAll_extends (r : Round) (cs : List (Except Error (Slot × TapSignature))) :
    Extends r (r.takeAll cs).1 := by
  fun_induction takeAll r cs with
  | case1 r => exact .refl r
  | case2 r why rest => exact .fail r why
  | case3 r slot s rest r' hplace ih => exact (place_extends hplace).trans ih
  | case4 r slot s rest why hplace => exact .fail r why

/-- A round fails exactly when something in a row is wrong. -/
theorem takeAll_failure {r : Round} (hr : r.failure = none)
    (cs : List (Except Error (Slot × TapSignature))) :
    (r.takeAll cs).1.failure = none ↔ (r.takeAll cs).2 = .ok () := by
  fun_induction takeAll r cs with
  | case1 r => simpa using hr
  | case2 r why rest => simp [fail]
  | case3 r slot s rest r' hplace ih => exact ih ((place_failure hplace).trans hr)
  | case4 r slot s rest why hplace => simp [fail]

/-- The signatures that a round would hold after a row: its own and those of the row. -/
def Holds (r : Round) (cs : List (Except Error (Slot × TapSignature))) (slot : Slot)
    (s : TapSignature) : Prop :=
  r.signature? slot = some s ∨ Except.ok (slot, s) ∈ cs

theorem holds_cons {r r' : Round} {slot : Slot} {s : TapSignature}
    (h : r.place slot s = .ok r') (cs : List (Except Error (Slot × TapSignature))) (slot' : Slot)
    (s' : TapSignature) : Holds r (.ok (slot, s) :: cs) slot' s' ↔ Holds r' cs slot' s' := by
  unfold Holds
  rw [signature?_place h, List.mem_cons, Except.ok.injEq, Prod.mk.injEq, or_assoc]

/-- **When a row is taken**: exactly if every part is a good signature for a slot, and no slot would
hold two. The condition speaks only of what the row contains, not of its order. -/
theorem takeAll_ok_iff {r : Round} {cs : List (Except Error (Slot × TapSignature))} :
    (∀ slot s, r.signature? slot = some s → Good r.quorum r.hashes slot s) →
    ((r.takeAll cs).2 = .ok () ↔
      (∀ c ∈ cs, ∃ slot s, c = .ok (slot, s) ∧ Good r.quorum r.hashes slot s) ∧
        ∀ slot s s', Holds r cs slot s → Holds r cs slot s' → s = s') := by
  fun_induction takeAll r cs with
  | case1 r =>
    intro _
    simp only [Holds, List.not_mem_nil, or_false, false_implies, implies_true, true_and, true_iff]
    intro slot s s' hs hs'
    rw [hs] at hs'
    exact Option.some.inj hs'
  | case2 r why rest => simp
  | case3 r slot s rest r' hplace ih =>
    intro hr
    have hext := place_extends hplace
    have hgood : Good r.quorum r.hashes slot s := by
      rcases hext.good slot s ((signature?_place hplace slot s).2 (.inr ⟨rfl, rfl⟩)) with h | h
      · exact hr slot s h
      · exact h
    rw [ih (hext.sound hr), hext.quorum, hext.hashes]
    simp only [holds_cons hplace, List.forall_mem_cons]
    exact and_congr_left fun _ => ⟨fun h => ⟨⟨slot, s, rfl, hgood⟩, h⟩, And.right⟩
  | case4 r slot s rest why hplace =>
    intro hr
    refine ⟨nofun, fun ⟨hgood, hone⟩ => ?_⟩
    obtain ⟨_, _, heq, hs⟩ := hgood _ List.mem_cons_self
    cases heq
    obtain ⟨s', hs', hne⟩ := place_error hplace hs
    exact absurd (hone slot s' s (.inl hs') (.inr List.mem_cons_self)) hne

/-- What a round holds after a row that was taken. -/
theorem signature?_takeAll {r : Round} {cs : List (Except Error (Slot × TapSignature))}
    (h : (r.takeAll cs).2 = .ok ()) (slot : Slot) (s : TapSignature) :
    (r.takeAll cs).1.signature? slot = some s ↔ Holds r cs slot s := by
  fun_induction takeAll r cs with
  | case1 r => simp [Holds]
  | case2 r why rest => cases h
  | case3 r slot' s' rest r' hplace ih => rw [ih h, holds_cons hplace]
  | case4 r slot' s' rest why hplace => cases h

/-- A row whose signatures are all in their slots changes nothing. -/
theorem takeAll_of_held {r : Round} {cs : List (Except Error (Slot × TapSignature))}
    (h : ∀ c ∈ cs, ∃ slot s, c = .ok (slot, s) ∧ r.signature? slot = some s) :
    r.takeAll cs = (r, .ok ()) := by
  induction cs with
  | nil => rfl
  | cons c cs ih =>
    obtain ⟨⟨slot, s, rfl, hs⟩, hrest⟩ := List.forall_mem_cons.1 h
    simp only [takeAll, place_eq_ok_iff.2 (.inl ⟨hs, rfl⟩)]
    exact ih hrest

end Round

end SignetFederation
