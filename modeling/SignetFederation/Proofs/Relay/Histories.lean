import SignetFederation.Proofs.Relay.Windows

/-!
# Windows over whole histories

A window is used again and again: keys are put into it, and what is over is dropped. At whatever
moments that happens, its order and its set have the same keys, each once, and no more than there is
room for (`Sound.run`). If the clock does not go back, the window has nothing of its own to remember
(`Keeps.run`): its order is the last accepted insertions, as many as there is room for, without those
that are over.

A use fails if the time to live of a key at the front of the order ends outside the calendar. As
long as no accepted key has such a time to live, all uses return (`exists_run`).

Main statement: `run_follows_log`.
-/

namespace SignetFederation

/-- What is done to a window, with the clock's reading. -/
inductive WindowUse (κ : Type) where
  | insert (k : κ) (now : Instant)
  | expire (now : Instant)

/-- The clock's reading. -/
def WindowUse.now {κ : Type} : WindowUse κ → Instant
  | insert _ now => now
  | expire now => now

namespace SeenWindow

variable {κ : Type} [BEq κ] [Hashable κ]

/-- The window after one use, and the entry that was accepted, if any was. -/
def use (w : SeenWindow κ) :
    WindowUse κ → Except ClockOverflow (SeenWindow κ × List (κ × Instant))
  | .insert k now => do
    let (w, fresh) ← w.insertAt k now
    return (w, if fresh then [(k, now)] else [])
  | .expire now => do
    return (← w.expire now, [])

/-- The window after one use after another, and the log of what was accepted. -/
def run (w : SeenWindow κ) :
    List (WindowUse κ) → Except ClockOverflow (SeenWindow κ × List (κ × Instant))
  | [] => .ok (w, [])
  | u :: uses => do
    let (w, accepted) ← w.use u
    let (w, later) ← w.run uses
    return (w, accepted ++ later)

variable {w w' : SeenWindow κ} {capacity : Nat} {ttl : Option Int} {u : WindowUse κ}
  {uses : List (WindowUse κ)} {log accepted : List (κ × Instant)} {before now : Instant}

theorem run_cons_eq_ok_iff :
    w.run (u :: uses) = .ok (w', log) ↔ ∃ w₁ accepted later, w.use u = .ok (w₁, accepted) ∧
      w₁.run uses = .ok (w', later) ∧ log = accepted ++ later := by
  constructor
  · intro hrun
    obtain ⟨⟨w₁, accepted⟩, huse, hrun⟩ := bind_eq_ok_iff.1 hrun
    obtain ⟨⟨w₂, later⟩, hrest, heq⟩ := bind_eq_ok_iff.1 hrun
    cases heq
    exact ⟨w₁, accepted, later, huse, hrest, rfl⟩
  · rintro ⟨w₁, accepted, later, huse, hrest, rfl⟩
    exact bind_eq_ok_iff.2 ⟨(w₁, accepted), huse, bind_eq_ok_iff.2 ⟨(w', later), hrest, rfl⟩⟩

variable [LawfulBEq κ]

/-- A use drops what is over and may take a key. -/
theorem use_spec (huse : w.use u = .ok (w', accepted)) (h : Indexed w.order w.seen) :
    ∃ w₁ gone, w.Expired u.now w₁ gone ∧
      ((w' = w₁ ∧ accepted = []) ∨
        ∃ k, u = .insert k u.now ∧ w₁.Took k u.now w' ∧ accepted = [(k, u.now)]) := by
  cases u with
  | insert k now =>
    obtain ⟨⟨w₂, fresh⟩, hinsert, heq⟩ := bind_eq_ok_iff.1 huse
    cases heq
    obtain ⟨w₁, hexpire, hcases⟩ := insertAt_spec hinsert h
    obtain ⟨gone, hexpired⟩ := expired_of_expire hexpire h
    refine ⟨w₁, gone, hexpired, ?_⟩
    rcases hcases with ⟨-, rfl, rfl⟩ | ⟨-, rfl, htook⟩
    · exact .inl ⟨rfl, rfl⟩
    · exact .inr ⟨k, rfl, htook, rfl⟩
  | expire now =>
    obtain ⟨w₁, hexpire, heq⟩ := bind_eq_ok_iff.1 huse
    cases heq
    obtain ⟨gone, hexpired⟩ := expired_of_expire hexpire h
    exact ⟨w', gone, hexpired, .inl ⟨rfl, rfl⟩⟩

/-! ## At any moments -/

theorem Sound.use (h : w.Sound capacity ttl) (huse : w.use u = .ok (w', accepted)) :
    w'.Sound capacity ttl := by
  obtain ⟨w₁, gone, hexpired, ⟨rfl, -⟩ | ⟨k, -, htook, -⟩⟩ := use_spec huse h.indexed
  · exact h.expired hexpired
  · exact (h.expired hexpired).took htook

theorem Sound.run (h : w.Sound capacity ttl) (hrun : w.run uses = .ok (w', log)) :
    w'.Sound capacity ttl := by
  induction uses generalizing w log with
  | nil =>
    cases hrun
    exact h
  | cons u uses ih =>
    obtain ⟨w₁, accepted, later, huse, hrest, rfl⟩ := run_cons_eq_ok_iff.1 hrun
    exact ih (h.use huse) hrest

/-! ## In order of time -/

theorem Keeps.use (h : w.Keeps capacity ttl log before) (hle : before ≤ u.now)
    (huse : w.use u = .ok (w', accepted)) :
    w'.Keeps capacity ttl (log ++ accepted) u.now := by
  obtain ⟨w₁, gone, hexpired, ⟨rfl, rfl⟩ | ⟨k, -, htook, rfl⟩⟩ := use_spec huse h.indexed
  · rw [List.append_nil]
    exact (h.later hle).expired hexpired
  · exact ((h.later hle).expired hexpired).took htook

theorem Keeps.run {later : List (κ × Instant)} (h : w.Keeps capacity ttl log before)
    (hclock : uses.Pairwise fun u u' => u.now ≤ u'.now) (hle : ∀ u ∈ uses, before ≤ u.now)
    (hbefore : before ≤ now) (hnow : ∀ u ∈ uses, u.now ≤ now)
    (hrun : w.run uses = .ok (w', later)) : w'.Keeps capacity ttl (log ++ later) now := by
  induction uses generalizing w log later before with
  | nil =>
    cases hrun
    rw [List.append_nil]
    exact h.later hbefore
  | cons u uses ih =>
    obtain ⟨hnext, hclock⟩ := List.pairwise_cons.1 hclock
    obtain ⟨hu, hnow⟩ := List.forall_mem_cons.1 hnow
    obtain ⟨w₁, accepted, later, huse, hrest, rfl⟩ := run_cons_eq_ok_iff.1 hrun
    rw [← List.append_assoc]
    exact ih (h.use (hle u List.mem_cons_self) huse) hclock hnext hu hnow hrest

/-- The log of a new window. -/
theorem keeps_of_run (hclock : uses.Pairwise fun u u' => u.now ≤ u'.now)
    (hnow : ∀ u ∈ uses, u.now ≤ now)
    (hrun : (empty capacity ttl : SeenWindow κ).run uses = .ok (w, log)) :
    w.Keeps (max capacity 1) ttl log now := by
  cases uses with
  | nil =>
    cases hrun
    exact keeps_empty capacity ttl now
  | cons u uses =>
    have hfirst : ∀ u' ∈ u :: uses, u.now ≤ u'.now :=
      List.forall_mem_cons.2 ⟨Int.le_refl _, (List.pairwise_cons.1 hclock).1⟩
    exact (keeps_empty capacity ttl u.now).run hclock hfirst (hnow u List.mem_cons_self) hnow hrun

/-! ## Within the calendar -/

/-- What a use leaves in the window was there before, or is taken now. -/
theorem forall_order_of_use {P : κ × Instant → Prop} (huse : w.use u = .ok (w', accepted))
    (h : Indexed w.order w.seen) (horder : ∀ x ∈ w.order, P x)
    (hu : ∀ k now, u = .insert k now → P (k, now)) : ∀ x ∈ w'.order, P x := by
  obtain ⟨w₁, gone, hexpired, hcases⟩ := use_spec huse h
  have hleft : ∀ x ∈ w₁.order, P x := by
    intro x hx
    refine horder x ?_
    rw [hexpired.order]
    exact List.mem_append_right gone hx
  rcases hcases with ⟨rfl, -⟩ | ⟨k, hk, htook, -⟩
  · exact hleft
  · intro x hx
    rw [htook.order] at hx
    rcases List.mem_append.1 hx with hx | hx
    · exact hleft x (List.mem_of_mem_drop hx)
    · cases List.mem_singleton.1 hx
      exact hu k u.now hk

omit [LawfulBEq κ] in
theorem exists_use (h : ∀ x ∈ w.order, x.2.Reaches w.ttl) : ∃ r, w.use u = .ok r := by
  cases u with
  | insert k now =>
    obtain ⟨⟨w', fresh⟩, hinsert⟩ := exists_insertAt k (exists_expire now h)
    exact ⟨_, bind_eq_ok_iff.2 ⟨(w', fresh), hinsert, rfl⟩⟩
  | expire now =>
    obtain ⟨w', hexpire⟩ := exists_expire now h
    exact ⟨_, bind_eq_ok_iff.2 ⟨w', hexpire, rfl⟩⟩

theorem exists_run (h : w.Sound capacity ttl) (hreach : ∀ x ∈ w.order, x.2.Reaches ttl)
    (huses : ∀ k now, .insert k now ∈ uses → now.Reaches ttl) : ∃ r, w.run uses = .ok r := by
  induction uses generalizing w with
  | nil => exact ⟨(w, []), rfl⟩
  | cons u uses ih =>
    obtain ⟨⟨w₁, accepted⟩, huse⟩ := exists_use (u := u) (h.span.symm ▸ hreach)
    have hreach₁ := forall_order_of_use huse h.indexed hreach fun k now hu =>
      huses k now (hu ▸ List.mem_cons_self)
    obtain ⟨⟨w', later⟩, hrest⟩ := ih (h.use huse) hreach₁ fun k now hmem =>
      huses k now (List.mem_cons_of_mem u hmem)
    exact ⟨(w', accepted ++ later), run_cons_eq_ok_iff.2 ⟨w₁, accepted, later, huse, hrest, rfl⟩⟩

/-! ## The log decides -/

/-- **A window is the end of its log.** A new window is used at any moments. Its order never has a
key twice, its set has exactly the keys of its order, and they are at most as many as there is room
for. If the clock does not go back, the survivors of the log (the last accepted insertions, as many
as there is room for, whose times to live end later than now) tell all the rest: a key is accepted
exactly if it is none of theirs, and afterwards the window has the survivors, the new key behind
them, and the oldest one is gone if there were too many. Every use returns, as long as the times to
live of what was accepted end within the calendar. -/
theorem run_follows_log (capacity : Nat) (ttl : Option Int) (uses : List (WindowUse κ)) :
    ((∀ k now, .insert k now ∈ uses → now.Reaches ttl) →
      ∃ r, (empty capacity ttl : SeenWindow κ).run uses = .ok r) ∧
    ∀ w log, (empty capacity ttl : SeenWindow κ).run uses = .ok (w, log) →
      ((w.order.map Prod.fst).Nodup ∧ (∀ k, w.contains k = true ↔ k ∈ w.order.map Prod.fst) ∧
        w.size ≤ max capacity 1) ∧
      ∀ now, (uses.Pairwise fun u u' => u.now ≤ u'.now) → (∀ u ∈ uses, u.now ≤ now) →
        ((∀ x ∈ log.rtake (max capacity 1), x.2.Reaches ttl) →
          (∀ k, ∃ r, w.insertAt k now = .ok r) ∧ ∃ w', w.expire now = .ok w') ∧
        (∀ k w' fresh, w.insertAt k now = .ok (w', fresh) →
          (fresh = true ↔ k ∉ (survivors (max capacity 1) ttl log now).map Prod.fst) ∧
            w'.order = (survivors (max capacity 1) ttl log now ++
              if fresh then [(k, now)] else []).rtake (max capacity 1)) ∧
        ∀ w', w.expire now = .ok w' → w'.order = survivors (max capacity 1) ttl log now := by
  refine ⟨fun huses => exists_run (sound_empty capacity ttl) (by simp [empty]) huses, ?_⟩
  intro w log hrun
  have hsound := (sound_empty capacity ttl).run hrun
  refine ⟨⟨hsound.indexed.distinct, hsound.indexed.contains_iff, hsound.fits⟩, ?_⟩
  intro now hclock hnow
  have hkeeps := keeps_of_run hclock hnow hrun
  refine ⟨fun hreach => ?_, fun k w' fresh hinsert => ?_, fun w' hexpire => ?_⟩
  · have hreturns : ∃ w', w.expire now = .ok w' :=
      exists_expire now fun x hx => hkeeps.span ▸ hreach x (hkeeps.mem_rtake hx)
    exact ⟨fun k => exists_insertAt k hreturns, hreturns⟩
  · obtain ⟨hfresh, -, horder⟩ := hkeeps.insertAt (Int.le_refl now) hinsert
    refine ⟨?_, horder⟩
    rw [hfresh, Bool.not_eq_true', decide_eq_false_iff_not, held_iff]
  · obtain ⟨hkeeps', hlive⟩ := hkeeps.expire (Int.le_refl now) hexpire
    exact hkeeps'.order_eq hlive

/-- Two keys, of which the first is put in again before its time is over and after it. -/
def sampleUses : List (WindowUse Nat) :=
  [.insert 7 0, .insert 7 1, .insert 8 1, .insert 7 2]

/-- At the moment 3 the key 7 of the sample still counts and the key 8 is over. -/
theorem run_follows_log_sample :
    ∃ w, (empty 2 (some 2) : SeenWindow Nat).run sampleUses =
        .ok (w, [(7, 0), (8, 1), (7, 2)]) ∧ w.order = [(8, 1), (7, 2)] ∧
      (∃ w', w.insertAt 7 3 = .ok (w', false) ∧ w'.order = [(7, 2)]) ∧
      ∃ w', w.insertAt 8 3 = .ok (w', true) ∧ w'.order = [(7, 2), (8, 3)] := by
  have hrun : ∃ seen, (empty 2 (some 2) : SeenWindow Nat).run sampleUses =
      .ok (⟨2, some 2, [(8, 1), (7, 2)], seen⟩, [(7, 0), (8, 1), (7, 2)]) := by
    simp [sampleUses, run, use, insertAt, expire, expireFront, empty, evict, contains,
      Instant.after?, Instant.earliest, Instant.latest, bind, Except.bind, pure, Except.pure]
  obtain ⟨seen, hrun⟩ := hrun
  have hclock : sampleUses.Pairwise fun u u' => u.now ≤ u'.now := by
    simp [sampleUses, WindowUse.now]
  have hnow : ∀ u ∈ sampleUses, u.now ≤ 3 := by
    simp [sampleUses, WindowUse.now]
  have hreach : ∀ x ∈ ([(7, 0), (8, 1), (7, 2)] : List (Nat × Instant)).rtake 2,
      x.2.Reaches (some 2) := by
    have hall : (([(7, 0), (8, 1), (7, 2)] : List (Nat × Instant)).rtake 2).all
        (fun x => (x.2.after? 2).isSome) = true := by decide
    rintro x hx span ⟨⟩
    exact List.all_eq_true.1 hall x hx
  obtain ⟨hreturns, hinsert, -⟩ :=
    ((run_follows_log 2 (some 2) sampleUses).2 _ _ hrun).2 3 hclock hnow
  obtain ⟨⟨w₇, fresh₇⟩, h₇⟩ := (hreturns hreach).1 7
  obtain ⟨⟨w₈, fresh₈⟩, h₈⟩ := (hreturns hreach).1 8
  obtain ⟨hfresh₇, horder₇⟩ := hinsert 7 w₇ fresh₇ h₇
  obtain ⟨hfresh₈, horder₈⟩ := hinsert 8 w₈ fresh₈ h₈
  have hold : fresh₇ = false := by
    refine Bool.eq_false_iff.2 fun h => hfresh₇.1 h ?_
    decide
  have hnew : fresh₈ = true := hfresh₈.2 (by decide)
  subst hold hnew
  exact ⟨_, hrun, rfl, ⟨w₇, h₇, horder₇.trans (by decide)⟩, w₈, h₈, horder₈.trans (by decide)⟩

/-- With a time to live of 10^16 milliseconds, a key that was taken in 2023 is never over. But the
end of its time is beyond the calendar, so the next insertion fails, although its key is new. -/
theorem insertAt_beyond_calendar :
    ∃ w, (empty 2 (some 10000000000000000000000) : SeenWindow String).run
        [.insert "0" 1700000000000000000] = .ok (w, [("0", 1700000000000000000)]) ∧
      "1" ∉ (survivors 2 (some 10000000000000000000000) [("0", 1700000000000000000)]
        1700000001000000000).map Prod.fst ∧
      w.insertAt "1" 1700000001000000000 = .error ⟨⟩ := by
  simp [run, use, insertAt, expire, expireFront, empty, evict, contains, survivors, List.rtake,
    Instant.lives, Instant.after?, Instant.earliest, Instant.latest, bind, Except.bind, pure,
    Except.pure]

end SeenWindow

end SignetFederation
