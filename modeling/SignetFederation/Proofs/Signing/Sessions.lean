import SignetFederation.Proofs.Signing.LocalSigner
import SignetFederation.Signing.Session

/-!
# Sessions

Sessions only hold consistent rounds of their quorum (`Sound`), whatever PSBTs come and whatever
steps are run on the rounds. A PSBT that is taken is for the transaction of the session that it
leaves (`exists_round_of_start`).
-/

namespace SignetFederation.Sessions

/-- Sessions of a quorum whose rounds are all consistent rounds of it. -/
structure Sound (q : Quorum) (s : Sessions) : Prop where
  quorum : s.quorum = q
  rounds : ∀ nonce r, s.get? nonce = some r → r.quorum = q ∧ r.Consistent

theorem sound_of_no_rounds {s : Sessions} (h : s.rounds = ∅) : s.Sound s.quorum := by
  refine ⟨rfl, fun nonce r hr => ?_⟩
  have hnone : s.get? nonce = none := by
    rw [get?, h]
    exact SortedMap.get?_empty nonce
  rw [hnone] at hr
  cases hr

theorem sound_empty (q : Quorum) : (empty q).Sound q := sound_of_no_rounds (s := empty q) rfl

theorem Sound.finishAll {q : Quorum} {s : Sessions} (h : s.Sound q) : s.finishAll.Sound q := by
  have hnone := sound_of_no_rounds (s := s.finishAll) rfl
  rwa [show s.finishAll.quorum = q from h.quorum] at hnone

/-- The sessions with a round in the place of a nonce. -/
def withSession (s : Sessions) (nonce : UInt64) (r : Round) : Sessions :=
  { s with rounds := s.rounds.insert nonce r }

section

variable {q : Quorum} {s : Sessions} {nonce : UInt64} {r : Round}

theorem get?_withSession (nonce' : UInt64) :
    (s.withSession nonce r).get? nonce' = if nonce' = nonce then some r else s.get? nonce' :=
  SortedMap.get?_insert _ _ _ _

@[simp] theorem get?_withSession_self : (s.withSession nonce r).get? nonce = some r :=
  SortedMap.get?_insert_self _ _ _

theorem Sound.withSession (h : s.Sound q) (hq : r.quorum = q) (hr : r.Consistent) :
    (s.withSession nonce r).Sound q := by
  refine ⟨h.quorum, fun nonce' r' hr' => ?_⟩
  rw [get?_withSession] at hr'
  split at hr'
  · cases hr'
    exact ⟨hq, hr⟩
  · exact h.rounds nonce' r' hr'

/-! ## Starting and merging -/

/-- A PSBT goes into the session that is there. -/
theorem start_of_some (hr : s.get? nonce = some r) (p : Psbt) :
    s.start nonce p = (s.withSession nonce (r.merge p).1, (r.merge p).2) := by
  unfold start
  rw [hr]
  rfl

/-- A PSBT starts the session that is not there. -/
theorem start_of_none (hr : s.get? nonce = none) {p : Psbt} (hstart : Round.start s.quorum p = .ok r) :
    s.start nonce p = (s.withSession nonce r, .ok r.state) := by
  unfold start
  rw [hr]
  simp only [hstart]
  rfl

/-- What a PSBT may leave: sessions as they were, or with another round of the nonce. -/
theorem start_cases (s : Sessions) (nonce : UInt64) (p : Psbt) :
    (∃ why, s.start nonce p = (s, .error why)) ∨
      (∃ r, s.get? nonce = some r ∧
        s.start nonce p = (s.withSession nonce (r.merge p).1, (r.merge p).2)) ∨
      ∃ r, s.get? nonce = none ∧ Round.start s.quorum p = .ok r ∧
        s.start nonce p = (s.withSession nonce r, .ok r.state) := by
  cases hr : s.get? nonce with
  | some r => exact .inr (.inl ⟨r, rfl, start_of_some hr p⟩)
  | none =>
    cases hstart : Round.start s.quorum p with
    | ok r => exact .inr (.inr ⟨r, rfl, rfl, start_of_none hr hstart⟩)
    | error why =>
      refine .inl ⟨why, ?_⟩
      unfold start
      rw [hr]
      simp only [hstart]

theorem Sound.start (h : s.Sound q) (nonce : UInt64) (p : Psbt) : (s.start nonce p).1.Sound q := by
  rcases start_cases s nonce p with ⟨_, heq⟩ | ⟨r, hr, heq⟩ | ⟨r, _, hstart, heq⟩ <;> rw [heq]
  · exact h
  · obtain ⟨hq, hcons⟩ := h.rounds nonce r hr
    have hext := Round.merge_extends r p
    exact h.withSession (hext.quorum.trans hq) (hcons.extends hext)
  · obtain ⟨i, hstarted⟩ := Round.started_of_start hstart
    exact h.withSession (hstarted.quorum.trans h.quorum) (Round.consistent_of_start hstart)

/-- A PSBT that is taken leaves an active session for its transaction. -/
theorem Sound.exists_round_of_start (h : s.Sound q) (nonce : UInt64) {p : Psbt}
    {state : RoundState} (hok : (s.start nonce p).2 = .ok state) :
    ∃ r, (s.start nonce p).1.get? nonce = some r ∧ r.failure = none ∧
      r.psbt.unsigned = p.unsigned := by
  rcases start_cases s nonce p with ⟨_, heq⟩ | ⟨r, hr, heq⟩ | ⟨r, _, hstart, heq⟩ <;>
    rw [heq] at hok ⊢
  · cases hok
  · obtain ⟨_, hcons⟩ := h.rounds nonce r hr
    obtain ⟨_, hp, _⟩ := hcons.merge_ok_iff.1 ⟨state, hok⟩
    exact ⟨_, get?_withSession_self, (Round.state_of_merge_ok hok).2,
      (Round.merge_extends r p).unsigned.trans hp.symm⟩
  · obtain ⟨i, hstarted⟩ := Round.started_of_start hstart
    exact ⟨r, get?_withSession_self, hstarted.active, hstarted.transaction⟩

/-! ## Steps on a round -/

variable {α : Type} {step : Round → Round × α}

theorem withRound_of_some (hr : s.get? nonce = some r) :
    s.withRound nonce step = (s.withSession nonce (step r).1, .ok (step r).2) := by
  unfold withRound
  rw [hr]
  rfl

theorem Sound.withRound (h : s.Sound q) (nonce : UInt64)
    (hstep : ∀ r, Round.Extends r (step r).1) :
    (s.withRound nonce step).1.Sound q := by
  cases hr : s.get? nonce with
  | none =>
    have heq : s.withRound nonce step = (s, .error (.sessionNotFound nonce)) := by
      unfold Sessions.withRound
      rw [hr]
    rw [heq]
    exact h
  | some r =>
    obtain ⟨hq, hcons⟩ := h.rounds nonce r hr
    rw [withRound_of_some hr]
    exact h.withSession ((hstep r).quorum.trans hq) (hcons.extends (hstep r))

end

end SignetFederation.Sessions
