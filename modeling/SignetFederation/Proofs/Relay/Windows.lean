import Mathlib.Data.List.DropRight
import SignetFederation.Proofs.Outcome
import SignetFederation.Relay.Window
import Std.Data.HashSet.Lemmas

/-!
# What a window remembers

A window is told apart from the whole history of what was put into it. The history is a log, the
oldest entry first. The window's order is the end of the log's last entries, as many as the window
has room for, and what it lacks of them is over; `Keeps` says so. Dropping what is over and making
room both take entries off the front, so the window keeps this from one call to the next, and a key
is taken for known exactly if it is among the log's last entries and still counts.

A call fails if a time to live ends outside the calendar. `Keeps.expire` and `Keeps.insertAt` are
about the calls that do not; `Recalls` adds that no time to live in the log ends there, so that all
calls return.

Main statements: `Keeps.insertAt`, `Recalls.insertAt`.
-/

namespace SignetFederation

/-! ## Times to live -/

namespace Instant

/-- Whether what was noted at a moment still counts at a later one: less time has passed than the
time to live, if there is one. -/
def lives (ttl : Option Int) (now noted : Instant) : Bool := ttl.all fun span => now < noted + span

/-- The time to live of what is noted at a moment ends within the calendar. -/
def Reaches (ttl : Option Int) (noted : Instant) : Prop :=
  ∀ span, ttl = some span → (noted.after? span).isSome = true

variable {ttl : Option Int} {now now' noted noted' : Instant}

theorem eq_add_of_after? {span : Int} {limit : Instant} (h : noted.after? span = some limit) :
    limit = noted + span := by
  unfold after? at h
  simp only [Option.ite_none_right_eq_some] at h
  exact (Option.some.inj h.2).symm

/-- What is over stays over. -/
theorem lives_of_lives_later (h : lives ttl now' noted = true) (hle : now ≤ now') :
    lives ttl now noted = true := by
  cases ttl with
  | none => rfl
  | some span =>
    simp only [lives, Option.all_some, decide_eq_true_eq] at h ⊢
    exact Int.lt_of_le_of_lt hle h

/-- What was noted later counts for longer. -/
theorem lives_of_noted_earlier (h : lives ttl now noted = true) (hle : noted ≤ noted') :
    lives ttl now noted' = true := by
  cases ttl with
  | none => rfl
  | some span =>
    simp only [lives, Option.all_some, decide_eq_true_eq] at h ⊢
    exact Int.lt_of_lt_of_le h (Int.add_le_add_right hle span)

end Instant

/-! ## Ends of lists -/

/-- Less of the end of a list is the end of more of it. -/
theorem rtake_eq_drop_rtake {α : Type} (l : List α) (n : Nat) :
    l.rtake n = (l.rtake (n + 1)).drop ((l.rtake (n + 1)).length - n) := by
  unfold List.rtake
  rw [List.drop_drop, List.length_drop]
  congr 1
  omega

theorem rtake_of_length_le {α : Type} {l : List α} {n : Nat} (h : l.length ≤ n) : l.rtake n = l := by
  unfold List.rtake
  rw [Nat.sub_eq_zero_of_le h, List.drop_zero]

/-- The end of a list with one element more: others make room for it. -/
theorem rtake_concat {α : Type} {l : List α} {n : Nat} (h : 0 < n) (a : α) :
    (l ++ [a]).rtake n = l.drop (l.length + 1 - n) ++ [a] := by
  obtain ⟨n, rfl⟩ := Nat.exists_eq_add_one.2 h
  rw [List.rtake_concat_succ, Nat.add_sub_add_right]
  rfl

namespace SeenWindow

variable {κ : Type} [BEq κ] [Hashable κ]

/-! ## The order and the set -/

/-- The set has exactly the keys of the order, and the order has each of them once. -/
structure Indexed (order : List (κ × Instant)) (seen : Std.HashSet κ) : Prop where
  distinct : (order.map Prod.fst).Nodup
  contains_iff : ∀ k, seen.contains k = true ↔ k ∈ order.map Prod.fst

namespace Indexed

variable {order rest : List (κ × Instant)} {seen : Std.HashSet κ} {k : κ} {t : Instant}

theorem tail [LawfulBEq κ] (h : Indexed ((k, t) :: rest) seen) : Indexed rest (seen.erase k) := by
  have hnodup := List.nodup_cons.1 h.distinct
  refine ⟨hnodup.2, fun k' => ?_⟩
  rw [Std.HashSet.contains_erase, Bool.and_eq_true, h.contains_iff, List.map_cons, List.mem_cons]
  constructor
  · rintro ⟨hne, rfl | hmem⟩
    · simp at hne
    · exact hmem
  · intro hmem
    have hne : k ≠ k' := fun heq => hnodup.1 (heq ▸ hmem)
    exact ⟨by simpa using hne, .inr hmem⟩

theorem concat [LawfulBEq κ] (h : Indexed order seen) (hk : k ∉ order.map Prod.fst) (t : Instant) :
    Indexed (order ++ [(k, t)]) (seen.insert k) := by
  constructor
  · rw [List.map_append]
    refine List.nodup_append.2 ⟨h.distinct, List.pairwise_singleton _ k, ?_⟩
    rintro k' hk' _ hsame rfl
    cases List.mem_singleton.1 hsame
    exact hk hk'
  · intro k'
    rw [Std.HashSet.contains_insert, Bool.or_eq_true, h.contains_iff, List.map_append,
      List.mem_append, List.map_singleton, List.mem_singleton, beq_iff_eq, or_comm, eq_comm]

/-- Making room takes entries off the front of both. -/
theorem evict [LawfulBEq κ] (h : Indexed order seen) (n : Nat) :
    (evict n order seen).1 = order.drop n ∧
      Indexed (order.drop n) (SeenWindow.evict n order seen).2 := by
  induction n generalizing order seen with
  | zero => exact ⟨rfl, h⟩
  | succ n ih =>
    cases order with
    | nil => exact ⟨rfl, h⟩
    | cons x rest => exact ih h.tail

end Indexed

/-- Expiry takes the entries at the front that are over, and stops at one that counts. -/
theorem expireFront_spec [LawfulBEq κ] {ttl : Int} {now : Instant}
    {order rest : List (κ × Instant)} {seen seen' : Std.HashSet κ}
    (hrun : expireFront ttl now order seen = .ok (rest, seen')) (h : Indexed order seen) :
    ∃ gone, order = gone ++ rest ∧ Indexed rest seen' ∧
      (∀ x ∈ gone, Instant.lives (some ttl) now x.2 = false) ∧
      ∀ x ∈ rest.head?, Instant.lives (some ttl) now x.2 = true := by
  induction order generalizing seen with
  | nil =>
    cases hrun
    exact ⟨[], rfl, h, by simp, by simp⟩
  | cons x order ih =>
    obtain ⟨k, noted⟩ := x
    unfold expireFront at hrun
    cases hlimit : noted.after? ttl with
    | none =>
      simp only [hlimit] at hrun
      cases hrun
    | some limit =>
      have hend := Instant.eq_add_of_after? hlimit
      simp only [hlimit] at hrun
      by_cases hlt : now < limit
      · rw [if_pos hlt] at hrun
        cases hrun
        refine ⟨[], rfl, h, by simp, ?_⟩
        rintro _ ⟨⟩
        simpa [Instant.lives] using hend ▸ hlt
      · rw [if_neg hlt] at hrun
        obtain ⟨gone, rfl, hindexed, hgone, hhead⟩ := ih hrun h.tail
        refine ⟨(k, noted) :: gone, rfl, hindexed, ?_, hhead⟩
        rintro x (_ | ⟨_, hx⟩)
        · simpa [Instant.lives] using hend ▸ Int.not_lt.1 hlt
        · exact hgone x hx

/-- Expiry returns if every time to live ends within the calendar. -/
theorem exists_expireFront {ttl : Int} (now : Instant) {order : List (κ × Instant)}
    (hreach : ∀ x ∈ order, x.2.Reaches (some ttl)) (seen : Std.HashSet κ) :
    ∃ r, expireFront ttl now order seen = .ok r := by
  induction order generalizing seen with
  | nil => exact ⟨([], seen), rfl⟩
  | cons x rest ih =>
    obtain ⟨k, noted⟩ := x
    obtain ⟨limit, hlimit⟩ := Option.isSome_iff_exists.1
      (hreach (k, noted) List.mem_cons_self ttl rfl)
    unfold expireFront
    simp only [hlimit]
    by_cases hlt : now < limit
    · exact ⟨((k, noted) :: rest, seen), if_pos hlt⟩
    · rw [if_neg hlt]
      exact ih (fun x hx => hreach x (List.mem_cons_of_mem _ hx)) (seen.erase k)

/-! ## One call -/

/-- What dropping keys whose time is over leaves of a window: what is gone was over, and what comes
first still counts. -/
structure Expired (w : SeenWindow κ) (now : Instant) (w' : SeenWindow κ)
    (gone : List (κ × Instant)) : Prop where
  room : w'.capacity = w.capacity
  span : w'.ttl = w.ttl
  order : w.order = gone ++ w'.order
  indexed : Indexed w'.order w'.seen
  ended : ∀ x ∈ gone, Instant.lives w.ttl now x.2 = false
  first : ∀ x ∈ w'.order.head?, Instant.lives w.ttl now x.2 = true

/-- What taking a key leaves of a window: it comes last, and the oldest ones made room for it. -/
structure Took (w : SeenWindow κ) (k : κ) (now : Instant) (w' : SeenWindow κ) : Prop where
  room : w'.capacity = w.capacity
  span : w'.ttl = w.ttl
  order : w'.order = w.order.drop (w.order.length + 1 - w.capacity) ++ [(k, now)]
  indexed : Indexed w'.order w'.seen

/-- A window made for some number of keys: it has no more, and its set has the same keys as its
order. -/
structure Sound (w : SeenWindow κ) (capacity : Nat) (ttl : Option Int) : Prop where
  room : w.capacity = capacity
  span : w.ttl = ttl
  positive : 0 < capacity
  indexed : Indexed w.order w.seen
  fits : w.order.length ≤ capacity

theorem sound_empty (capacity : Nat) (ttl : Option Int) :
    (empty capacity ttl : SeenWindow κ).Sound (max capacity 1) ttl where
  room := rfl
  span := rfl
  positive := Nat.lt_of_lt_of_le Nat.one_pos (Nat.le_max_right capacity 1)
  indexed := ⟨List.nodup_nil, fun k => by simp [empty]⟩
  fits := Nat.zero_le _

section Call

variable {w w' : SeenWindow κ} {capacity : Nat} {ttl : Option Int} {k : κ} {now : Instant}
  {fresh : Bool}

theorem Sound.expired {gone : List (κ × Instant)} (h : w.Sound capacity ttl)
    (hw' : w.Expired now w' gone) : w'.Sound capacity ttl where
  room := hw'.room.trans h.room
  span := hw'.span.trans h.span
  positive := h.positive
  indexed := hw'.indexed
  fits := by
    have hfits := h.fits
    rw [hw'.order, List.length_append] at hfits
    omega

theorem Sound.took (h : w.Sound capacity ttl) (hw' : w.Took k now w') : w'.Sound capacity ttl where
  room := hw'.room.trans h.room
  span := hw'.span.trans h.span
  positive := h.positive
  indexed := hw'.indexed
  fits := by
    have hpositive := h.positive
    rw [hw'.order, h.room, List.length_append, List.length_drop, List.length_singleton]
    omega

theorem exists_expire (now : Instant) (hreach : ∀ x ∈ w.order, x.2.Reaches w.ttl) :
    ∃ w', w.expire now = .ok w' := by
  unfold expire
  cases hspan : w.ttl with
  | none => exact ⟨w, rfl⟩
  | some ttl =>
    obtain ⟨⟨order, seen⟩, hrun⟩ := exists_expireFront now (hspan ▸ hreach) w.seen
    simp only [hrun]
    exact ⟨_, rfl⟩

/-- Expiry that returned has seen where the time to live of the first entry ends. -/
theorem reaches_of_expire (hrun : w.expire now = .ok w') : ∀ x ∈ w.order.head?, x.2.Reaches w.ttl := by
  rintro x hx span hspan
  obtain ⟨rest, horder⟩ := List.head?_eq_some_iff.1 hx
  unfold expire at hrun
  simp only [hspan, horder] at hrun
  obtain ⟨_, hfront, -⟩ := bind_eq_ok_iff.1 hrun
  unfold expireFront at hfront
  cases hlimit : x.2.after? span with
  | none =>
    simp only [hlimit] at hfront
    cases hfront
  | some limit => rfl

/-- An insertion fails only if dropping what is over does. -/
theorem exists_insertAt (k : κ) (h : ∃ w', w.expire now = .ok w') :
    ∃ r, w.insertAt k now = .ok r := by
  obtain ⟨w', hexpire⟩ := h
  unfold insertAt
  rw [hexpire]
  by_cases hk : w'.contains k = true
  · exact ⟨(w', false), if_pos hk⟩
  · exact ⟨_, if_neg hk⟩

variable [LawfulBEq κ]

theorem expired_of_expire (hrun : w.expire now = .ok w') (h : Indexed w.order w.seen) :
    ∃ gone, w.Expired now w' gone := by
  unfold expire at hrun
  cases hspan : w.ttl with
  | none =>
    simp only [hspan] at hrun
    cases hrun
    refine ⟨[], rfl, rfl, rfl, h, by simp, fun _ _ => ?_⟩
    rw [hspan]
    rfl
  | some ttl =>
    simp only [hspan] at hrun
    obtain ⟨⟨order, seen⟩, hfront, heq⟩ := bind_eq_ok_iff.1 hrun
    cases heq
    obtain ⟨gone, horder, hindexed, hgone, hhead⟩ := expireFront_spec hfront h
    exact ⟨gone, rfl, hspan.symm, horder, hindexed, hspan ▸ hgone, hspan ▸ hhead⟩

/-- An insertion drops what is over, and takes the key if it is not among what is left. -/
theorem insertAt_spec (hrun : w.insertAt k now = .ok (w', fresh)) (h : Indexed w.order w.seen) :
    ∃ w₁, w.expire now = .ok w₁ ∧
      ((w₁.contains k = true ∧ fresh = false ∧ w' = w₁) ∨
        (w₁.contains k = false ∧ fresh = true ∧ w₁.Took k now w')) := by
  obtain ⟨w₁, hexpire, hrun⟩ := bind_eq_ok_iff.1 hrun
  obtain ⟨gone, hexpired⟩ := expired_of_expire hexpire h
  refine ⟨w₁, hexpire, ?_⟩
  cases hk : w₁.contains k with
  | true =>
    rw [hk] at hrun
    cases hrun
    exact .inl ⟨rfl, rfl, rfl⟩
  | false =>
    rw [hk] at hrun
    obtain ⟨hevict, hindexed⟩ := hexpired.indexed.evict (w₁.order.length + 1 - w₁.capacity)
    have hnew : k ∉ (w₁.order.drop (w₁.order.length + 1 - w₁.capacity)).map Prod.fst := by
      intro hmem
      obtain ⟨x, hx, rfl⟩ := List.mem_map.1 hmem
      have hcontains := (hexpired.indexed.contains_iff x.1).2
        (List.mem_map_of_mem (List.mem_of_mem_drop hx))
      rw [← contains, hk] at hcontains
      cases hcontains
    cases hrun
    refine .inr ⟨rfl, rfl, rfl, rfl, ?_, ?_⟩
    · rw [hevict]
    · rw [hevict]
      exact hindexed.concat hnew now

end Call

/-! ## The log -/

/-- Whether a key is among the last entries of a log, and counts at a moment. -/
def Held (capacity : Nat) (ttl : Option Int) (log : List (κ × Instant)) (k : κ) (now : Instant) :
    Prop :=
  ∃ noted, (k, noted) ∈ log.rtake capacity ∧ Instant.lives ttl now noted = true

instance [LawfulBEq κ] (capacity : Nat) (ttl : Option Int) (log : List (κ × Instant)) (k : κ)
    (now : Instant) : Decidable (Held capacity ttl log k now) :=
  decidable_of_iff
    (((log.rtake capacity).any fun x => x.1 == k && Instant.lives ttl now x.2) = true)
    (by
      rw [List.any_eq_true]
      constructor
      · rintro ⟨⟨k', noted⟩, hmem, h⟩
        obtain ⟨hk, hlives⟩ := Bool.and_eq_true_iff.1 h
        exact ⟨noted, eq_of_beq hk ▸ hmem, hlives⟩
      · rintro ⟨noted, hmem, hlives⟩
        exact ⟨(k, noted), hmem, by simp [hlives]⟩)

/-- The last entries of a log that count at a moment. -/
def survivors (capacity : Nat) (ttl : Option Int) (log : List (κ × Instant)) (now : Instant) :
    List (κ × Instant) := (log.rtake capacity).filter fun x => Instant.lives ttl now x.2

omit [BEq κ] [Hashable κ] in
theorem held_iff {capacity : Nat} {ttl : Option Int} {log : List (κ × Instant)} {k : κ}
    {now : Instant} :
    Held capacity ttl log k now ↔ k ∈ (survivors capacity ttl log now).map Prod.fst := by
  unfold Held survivors
  simp only [List.mem_map, List.mem_filter]
  constructor
  · rintro ⟨noted, hmem, hlives⟩
    exact ⟨(k, noted), ⟨hmem, hlives⟩, rfl⟩
  · rintro ⟨⟨_, noted⟩, ⟨hmem, hlives⟩, rfl⟩
    exact ⟨noted, hmem, hlives⟩

/-- A window has the end of the last entries of a log, of which the others are over. -/
structure Keeps (w : SeenWindow κ) (capacity : Nat) (ttl : Option Int)
    (log : List (κ × Instant)) (now : Instant) : Prop extends w.Sound capacity ttl where
  sorted : log.Pairwise fun x y => x.2 ≤ y.2
  past : ∀ x ∈ log, x.2 ≤ now
  recent : ∃ gone, log.rtake capacity = gone ++ w.order ∧
    ∀ x ∈ gone, Instant.lives ttl now x.2 = false

/-- The times to live of what a window has a log of end within the calendar. -/
structure Recalls (w : SeenWindow κ) (capacity : Nat) (ttl : Option Int)
    (log : List (κ × Instant)) (now : Instant) : Prop extends w.Keeps capacity ttl log now where
  reaches : ∀ x ∈ log, x.2.Reaches ttl

theorem keeps_empty (capacity : Nat) (ttl : Option Int) (now : Instant) :
    (empty capacity ttl : SeenWindow κ).Keeps (max capacity 1) ttl [] now where
  toSound := sound_empty capacity ttl
  sorted := .nil
  past := by simp
  recent := ⟨[], List.rtake_nil _, by simp⟩

theorem recalls_empty (capacity : Nat) (ttl : Option Int) (now : Instant) :
    (empty capacity ttl : SeenWindow κ).Recalls (max capacity 1) ttl [] now :=
  ⟨keeps_empty capacity ttl now, by simp⟩

namespace Keeps

variable {w w' : SeenWindow κ} {capacity : Nat} {ttl : Option Int} {log : List (κ × Instant)}
  {before now : Instant} {k : κ} {fresh : Bool}

theorem mem_rtake (h : w.Keeps capacity ttl log now) {x : κ × Instant} (hx : x ∈ w.order) :
    x ∈ log.rtake capacity := by
  obtain ⟨gone, hrecent, -⟩ := h.recent
  exact hrecent ▸ List.mem_append_right gone hx

theorem sorted_order (h : w.Keeps capacity ttl log now) :
    w.order.Pairwise fun x y => x.2 ≤ y.2 := by
  obtain ⟨gone, hrecent, -⟩ := h.recent
  have hlast : (log.rtake capacity).Pairwise fun x y => x.2 ≤ y.2 :=
    h.sorted.sublist (List.drop_sublist _ _)
  rw [hrecent] at hlast
  exact (List.pairwise_append.1 hlast).2.1

/-- The window has the survivors as soon as none of its keys is over. -/
theorem order_eq (h : w.Keeps capacity ttl log now)
    (hlive : ∀ x ∈ w.order, Instant.lives ttl now x.2 = true) :
    w.order = survivors capacity ttl log now := by
  obtain ⟨gone, hrecent, hgone⟩ := h.recent
  have hnone : gone.filter (fun x => Instant.lives ttl now x.2) = [] :=
    List.filter_eq_nil_iff.2 fun x hx => by simp [hgone x hx]
  unfold survivors
  rw [hrecent, List.filter_append, hnone, List.filter_eq_self.2 hlive, List.nil_append]

theorem contains_iff (h : w.Keeps capacity ttl log now)
    (hlive : ∀ x ∈ w.order, Instant.lives ttl now x.2 = true) :
    w.contains k = true ↔ Held capacity ttl log k now := by
  unfold SeenWindow.contains
  rw [h.indexed.contains_iff, held_iff, h.order_eq hlive]

theorem later (h : w.Keeps capacity ttl log before) (hle : before ≤ now) :
    w.Keeps capacity ttl log now := by
  obtain ⟨gone, hrecent, hgone⟩ := h.recent
  have hpast : ∀ x ∈ log, x.2 ≤ now := fun x hx => Int.le_trans (h.past x hx) hle
  refine { h with past := hpast, recent := ⟨gone, hrecent, fun x hx => ?_⟩ }
  refine Bool.eq_false_iff.2 fun hlives => ?_
  have hbefore := Instant.lives_of_lives_later hlives hle
  rw [hgone x hx] at hbefore
  cases hbefore

/-- What is over may go from the front. -/
theorem expired {gone : List (κ × Instant)} (h : w.Keeps capacity ttl log now)
    (hw' : w.Expired now w' gone) : w'.Keeps capacity ttl log now := by
  obtain ⟨lost, hrecent, hlost⟩ := h.recent
  have hgone : ∀ x ∈ gone, Instant.lives ttl now x.2 = false := h.span ▸ hw'.ended
  refine ⟨h.toSound.expired hw', h.sorted, h.past, lost ++ gone, ?_, ?_⟩
  · rw [hrecent, hw'.order, List.append_assoc]
  · exact fun x hx => (List.mem_append.1 hx).elim (hlost x) (hgone x)

/-- Room is made at the front for an entry at the end. -/
theorem took (h : w.Keeps capacity ttl log now) (hw' : w.Took k now w') :
    w'.Keeps capacity ttl (log ++ [(k, now)]) now where
  toSound := h.toSound.took hw'
  sorted := List.pairwise_append.2 ⟨h.sorted, List.pairwise_singleton _ _, fun x hx _ hy =>
    List.mem_singleton.1 hy ▸ h.past x hx⟩
  past x hx := (List.mem_append.1 hx).elim (h.past x) fun hx =>
    List.mem_singleton.1 hx ▸ Int.le_refl now
  recent := by
    obtain ⟨gone, hrecent, hgone⟩ := h.recent
    obtain ⟨n, rfl⟩ := Nat.exists_eq_add_one.2 h.positive
    -- The entries before the new one are what the last entries have after room was made.
    have hcut : gone.length + w.order.length - n - gone.length = w.order.length - n := by omega
    refine ⟨gone.drop (gone.length + w.order.length - n), ?_, fun x hx =>
      hgone x (List.mem_of_mem_drop hx)⟩
    rw [hw'.order, h.room, List.rtake_concat_succ, rtake_eq_drop_rtake, hrecent, List.length_append,
      List.drop_append, hcut, Nat.add_sub_add_right, List.append_assoc]

variable [LawfulBEq κ]

/-- Dropping what is over leaves the log's last entries that count. -/
theorem expire (h : w.Keeps capacity ttl log before) (hle : before ≤ now)
    (hrun : w.expire now = .ok w') :
    w'.Keeps capacity ttl log now ∧ ∀ x ∈ w'.order, Instant.lives ttl now x.2 = true := by
  obtain ⟨gone, hexpired⟩ := expired_of_expire hrun h.indexed
  have hnow := (h.later hle).expired hexpired
  refine ⟨hnow, ?_⟩
  have hsorted := hnow.sorted_order
  have hhead := h.span ▸ hexpired.first
  -- The first one left counts, and the rest was noted later.
  cases hw' : w'.order with
  | nil => simp
  | cons first rest =>
    rw [hw'] at hsorted hhead
    have hfirst := hhead first rfl
    rintro x (_ | ⟨_, hx⟩)
    · exact hfirst
    · exact Instant.lives_of_noted_earlier hfirst ((List.pairwise_cons.1 hsorted).1 x hx)

/-- A key is taken exactly if it is not held, and then it is the log's last entry. -/
theorem insertAt (h : w.Keeps capacity ttl log before) (hle : before ≤ now)
    (hrun : w.insertAt k now = .ok (w', fresh)) :
    fresh = !decide (Held capacity ttl log k now) ∧
      w'.Keeps capacity ttl (if Held capacity ttl log k now then log else log ++ [(k, now)])
        now ∧
      w'.order =
        (survivors capacity ttl log now ++ if fresh then [(k, now)] else []).rtake capacity := by
  obtain ⟨w₁, hexpire, hcases⟩ := insertAt_spec hrun h.indexed
  obtain ⟨hkeeps, hlive⟩ := h.expire hle hexpire
  have hheld := hkeeps.contains_iff (k := k) hlive
  have horder := hkeeps.order_eq hlive
  rcases hcases with ⟨hk, rfl, rfl⟩ | ⟨hk, rfl, htook⟩
  · have hheld := hheld.1 hk
    refine ⟨by simp [hheld], by rwa [if_pos hheld], ?_⟩
    rw [← horder, if_neg Bool.false_ne_true, List.append_nil]
    exact (rtake_of_length_le hkeeps.fits).symm
  · have hheld : ¬ Held capacity ttl log k now := fun hheld' => by simp [hheld.2 hheld'] at hk
    refine ⟨by simp [hheld], ?_, ?_⟩
    · rw [if_neg hheld]
      exact hkeeps.took htook
    · rw [← horder, if_pos rfl, htook.order, hkeeps.room, rtake_concat h.positive]

end Keeps

namespace Recalls

variable {w : SeenWindow κ} {capacity : Nat} {ttl : Option Int} {log : List (κ × Instant)}
  {before now : Instant} {k : κ}

theorem reaches_order (h : w.Recalls capacity ttl log now) {x : κ × Instant} (hx : x ∈ w.order) :
    x.2.Reaches w.ttl :=
  h.span ▸ h.reaches x (List.mem_of_mem_drop (h.mem_rtake hx))

theorem later (h : w.Recalls capacity ttl log before) (hle : before ≤ now) :
    w.Recalls capacity ttl log now :=
  ⟨h.toKeeps.later hle, h.reaches⟩

variable [LawfulBEq κ]

theorem expire (h : w.Recalls capacity ttl log before) (hle : before ≤ now) :
    ∃ w', w.expire now = .ok w' ∧ w'.Recalls capacity ttl log now ∧
      ∀ x ∈ w'.order, Instant.lives ttl now x.2 = true := by
  obtain ⟨w', hrun⟩ := exists_expire now fun x hx => h.reaches_order hx
  obtain ⟨hkeeps, hlive⟩ := h.toKeeps.expire hle hrun
  exact ⟨w', hrun, ⟨hkeeps, h.reaches⟩, hlive⟩

theorem insertAt (h : w.Recalls capacity ttl log before) (hle : before ≤ now)
    (hreach : now.Reaches ttl) :
    ∃ w', w.insertAt k now = .ok (w', !decide (Held capacity ttl log k now)) ∧
      w'.Recalls capacity ttl (if Held capacity ttl log k now then log else log ++ [(k, now)])
        now := by
  obtain ⟨⟨w', fresh⟩, hrun⟩ :=
    exists_insertAt k (exists_expire now fun x hx => h.reaches_order hx)
  obtain ⟨rfl, hkeeps, -⟩ := h.toKeeps.insertAt hle hrun
  refine ⟨w', hrun, hkeeps, fun x hx => ?_⟩
  split at hx
  · exact h.reaches x hx
  · rcases List.mem_append.1 hx with hx | hx
    · exact h.reaches x hx
    · cases List.mem_singleton.1 hx
      exact hreach

end Recalls

end SeenWindow

end SignetFederation
