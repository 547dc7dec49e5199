import Mathlib.Logic.Relation
import SignetFederation.Relay.Network

/-!
# How one message spreads

What a network of flooding nodes does, seen from a single message: which nodes have seen it, how
often its frame waits between two nodes or was taken, and how often it was handed to local
processing. A node that has not seen the message sees it by broadcasting it, by getting it from
outside or by taking its frame, and sends the frame on at that moment; a node that has seen it only
takes it off.

Whatever the order, no node sends the frame to another one twice or back to where it got it from, and
none processes the message twice; and a node that has seen the message has neighbours that have seen
it too or for which the frame is still waiting (`Sound.step`). So once nothing waits, everyone within
reach has seen it (`Sound.seen_of_connected`).
-/

namespace SignetFederation

/-- What has become of one message: who has seen it and who of them broadcast it, how often each node
processed it, how often its frame waits for and was taken by the second node, sent by the first, and
whether the first node accepted it from the second. -/
@[ext]
structure Spread where
  seen : PeerId → Bool
  own : PeerId → Bool
  handed : PeerId → Nat
  waiting : PeerId → PeerId → Nat
  taken : PeerId → PeerId → Nat
  acceptedFrom : PeerId → PeerId → Bool

namespace Spread

variable {links : PeerId → List PeerId} {S S' : Spread}

/-- How often the first node sent the frame to the second. -/
def sent (S : Spread) (v p : PeerId) : Nat := S.waiting v p + S.taken v p

/-- A message of which nothing is known yet. -/
def blank : Spread :=
  ⟨fun _ => false, fun _ => false, fun _ => 0, fun _ _ => 0, fun _ _ => 0, fun _ _ => false⟩

/-! ## Steps -/

/-- A node sees the message and sends its frame to all neighbours, except to the one it got it
from. -/
def emit (links : PeerId → List PeerId) (S : Spread) (v : PeerId) (sender : Option PeerId) :
    Spread :=
  { S with
    seen := fun x => S.seen x || x == v
    waiting := fun x y =>
      S.waiting x y + if x = v ∧ y ∈ links v ∧ some y ≠ sender then 1 else 0 }

/-- A node hands the message to local processing. -/
def hand (S : Spread) (v : PeerId) : Spread :=
  { S with handed := fun x => S.handed x + if x = v then 1 else 0 }

/-- The second node takes the frame of the first one. -/
def take (S : Spread) (v p : PeerId) : Spread :=
  { S with
    waiting := fun x y => S.waiting x y - if x = v ∧ y = p then 1 else 0
    taken := fun x y => S.taken x y + if x = v ∧ y = p then 1 else 0 }

/-- A node broadcasts the message. -/
def broadcast (links : PeerId → List PeerId) (S : Spread) (v : PeerId) : Spread :=
  { S.emit links v none with own := fun x => S.own x || x == v }

/-- The second node accepts the frame of the first one. -/
def accept (links : PeerId → List PeerId) (S : Spread) (v p : PeerId) : Spread :=
  { ((S.emit links p (some v)).hand p).take v p with
    acceptedFrom := fun x y => S.acceptedFrom x y || (x == p && y == v) }

/-- What a step of the network does to the spread of a message. -/
inductive Step (links : PeerId → List PeerId) : Spread → Spread → Prop
  | other {S : Spread} : Step links S S
  | broadcast {S : Spread} (v : PeerId) (h : S.seen v = false) :
      Step links S (S.broadcast links v)
  | inject {S : Spread} (v : PeerId) (h : S.seen v = false) :
      Step links S ((S.emit links v none).hand v)
  | accept {S : Spread} (v p : PeerId) (hw : 0 < S.waiting v p) (h : S.seen p = false) :
      Step links S (S.accept links v p)
  | drop {S : Spread} (v p : PeerId) (hw : 0 < S.waiting v p) (h : S.seen p = true) :
      Step links S (S.take v p)

/-! ## The invariant -/

/-- The frames of a message are where they belong: only who has seen the message sent it, at most
once to each neighbour, and whose neighbour has not seen it, for that one the frame still waits. -/
structure Routed (links : PeerId → List PeerId) (S : Spread) : Prop where
  once : ∀ v p, S.sent v p ≤ 1
  silent : ∀ v p, S.seen v = false → S.sent v p = 0
  linked : ∀ v p, 0 < S.sent v p → p ∈ links v
  covered : ∀ v p, p ∈ links v → S.seen v = true → S.seen p = true ∨ 0 < S.waiting v p

/-- What holds of the spread of a message at any time. -/
structure Sound (links : PeerId → List PeerId) (S : Spread) : Prop extends Routed links S where
  noEcho : ∀ v p, S.acceptedFrom v p = true → S.seen v = true ∧ S.sent v p = 0
  handed : ∀ v, S.handed v = (S.seen v && !S.own v).toNat
  ownSeen : ∀ v, S.own v = true → S.seen v = true

theorem sound_blank : Sound links blank where
  once _ _ := Nat.zero_le _
  silent _ _ _ := rfl
  linked _ _ h := absurd h (Nat.lt_irrefl 0)
  covered := nofun
  noEcho := nofun
  handed _ := rfl
  ownSeen := nofun

/-- Taking a frame off does not change how often it was sent. -/
theorem sent_take {v p : PeerId} (hw : 0 < S.waiting v p) (x y : PeerId) :
    (S.take v p).sent x y = S.sent x y := by
  unfold sent take
  simp only
  by_cases h : x = v ∧ y = p
  · obtain ⟨rfl, rfl⟩ := h
    simp only [and_self, if_true]
    omega
  · simp only [if_neg h]
    omega

theorem sent_emit (v : PeerId) (sender : Option PeerId) (x y : PeerId) :
    (S.emit links v sender).sent x y =
      S.sent x y + if x = v ∧ y ∈ links v ∧ some y ≠ sender then 1 else 0 := by
  unfold sent emit
  simp only
  omega

theorem sent_emit_of_ne {v x : PeerId} (hne : x ≠ v) (sender : Option PeerId) (y : PeerId) :
    (S.emit links v sender).sent x y = S.sent x y := by
  rw [sent_emit, if_neg fun h => hne h.1, Nat.add_zero]

theorem seen_emit (links : PeerId → List PeerId) (v : PeerId) (sender : Option PeerId)
    (x : PeerId) : (S.emit links v sender).seen x = true ↔ S.seen x = true ∨ x = v := by
  simp [emit]

namespace Routed

/-- Taking a frame off where the message was seen leaves the others where they belong. -/
theorem take (h : Routed links S) {v p : PeerId} (hw : 0 < S.waiting v p)
    (hp : S.seen p = true) : Routed links (S.take v p) where
  once x y := by
    rw [sent_take hw]
    exact h.once x y
  silent x y hx := by
    rw [sent_take hw]
    exact h.silent x y hx
  linked x y hxy := by
    rw [sent_take hw] at hxy
    exact h.linked x y hxy
  covered x y hxy hx := by
    by_cases hhere : x = v ∧ y = p
    · obtain ⟨rfl, rfl⟩ := hhere
      exact .inl hp
    · have hcov := h.covered x y hxy hx
      simpa only [Spread.take, if_neg hhere, Nat.sub_zero] using hcov

/-- A node that sees the message for the first time sends it on; whoever it leaves out has seen it. -/
theorem emit (h : Routed links S) {v : PeerId} (hv : S.seen v = false) {s : Option PeerId}
    (hs : ∀ p, s = some p → S.seen p = true) : Routed links (S.emit links v s) where
  once x y := by
    by_cases hx : x = v
    · subst hx
      rw [sent_emit, h.silent x y hv]
      split <;> omega
    · rw [sent_emit_of_ne hx]
      exact h.once x y
  silent x y hx := by
    obtain ⟨hx, hne⟩ := not_or.1 (fun hor => Bool.eq_false_iff.1 hx ((seen_emit links v s x).2 hor))
    rw [sent_emit_of_ne hne]
    exact h.silent x y (Bool.eq_false_iff.2 hx)
  linked x y hxy := by
    rw [sent_emit] at hxy
    split at hxy
    · next hc =>
      rw [hc.1]
      exact hc.2.1
    · exact h.linked x y hxy
  covered x y hxy hx := by
    rw [seen_emit] at hx ⊢
    by_cases hxv : x = v
    · subst hxv
      by_cases hy : some y = s
      · exact .inl (.inl (hs y hy.symm))
      · right
        change 0 < S.waiting x y + if x = x ∧ y ∈ links x ∧ some y ≠ s then 1 else 0
        rw [if_pos ⟨rfl, hxy, hy⟩]
        omega
    · rcases h.covered x y hxy (hx.resolve_right hxv) with hseen | hwait
      · exact .inl (.inl hseen)
      · right
        simp only [Spread.emit]
        omega

end Routed

namespace Sound

/-- A node that sees the message for the first time leaves the accounts of acceptances alone. -/
theorem noEcho_emit (h : Sound links S) {v : PeerId} (hv : S.seen v = false)
    (sender : Option PeerId) (x y : PeerId) (hxy : S.acceptedFrom x y = true) :
    (S.emit links v sender).seen x = true ∧ (S.emit links v sender).sent x y = 0 := by
  obtain ⟨hseen, hzero⟩ := h.noEcho x y hxy
  have hne : x ≠ v := by
    rintro rfl
    rw [hv] at hseen
    cases hseen
  exact ⟨(seen_emit links v sender x).2 (.inl hseen), by rw [sent_emit_of_ne hne, hzero]⟩

/-- A node that has not seen the message has not broadcast it, and hands it on for the first time. -/
theorem handed_emit (h : Sound links S) {v : PeerId} (hv : S.seen v = false)
    (sender : Option PeerId) (x : PeerId) :
    ((S.emit links v sender).hand v).handed x =
      (((S.emit links v sender).hand v).seen x && !S.own x).toNat := by
  have hx := h.handed x
  by_cases hxv : x = v
  · subst hxv
    have hown : S.own x = false := Bool.eq_false_iff.2 fun hown => by
      rw [h.ownSeen x hown] at hv
      cases hv
    simp [hand, Spread.emit, hx, hv, hown]
  · have hbeq : (x == v) = false := beq_false_of_ne hxv
    simpa [hand, Spread.emit, hxv, hbeq] using hx

/-- Who broadcasts the message has seen it without having processed it. -/
theorem handed_broadcast (h : Sound links S) {v : PeerId} (hv : S.seen v = false) (x : PeerId) :
    (S.broadcast links v).handed x =
      ((S.broadcast links v).seen x && !(S.broadcast links v).own x).toNat := by
  have hx := h.handed x
  by_cases hxv : x = v
  · subst hxv
    simpa [Spread.broadcast, Spread.emit, hv] using hx
  · have hbeq : (x == v) = false := beq_false_of_ne hxv
    simpa [Spread.broadcast, Spread.emit, hbeq] using hx

theorem broadcast (h : Sound links S) {v : PeerId} (hv : S.seen v = false) :
    Sound links (S.broadcast links v) where
  toRouted :=
    have hemit := h.toRouted.emit hv (s := none) (fun _ hp => by cases hp)
    ⟨hemit.once, hemit.silent, hemit.linked, hemit.covered⟩
  noEcho := h.noEcho_emit hv none
  handed := h.handed_broadcast hv
  ownSeen x hx := by
    simp only [Spread.broadcast, Bool.or_eq_true, beq_iff_eq] at hx
    exact (seen_emit links v none x).2 (hx.imp_left (h.ownSeen x))

theorem inject (h : Sound links S) {v : PeerId} (hv : S.seen v = false) :
    Sound links ((S.emit links v none).hand v) where
  toRouted :=
    have hemit := h.toRouted.emit hv (s := none) (fun _ hp => by cases hp)
    ⟨hemit.once, hemit.silent, hemit.linked, hemit.covered⟩
  noEcho := h.noEcho_emit hv none
  handed := h.handed_emit hv none
  ownSeen x hx := (seen_emit links v none x).2 (.inl (h.ownSeen x hx))

theorem accept (h : Sound links S) {v p : PeerId} (hw : 0 < S.waiting v p)
    (hp : S.seen p = false) : Sound links (S.accept links v p) := by
  -- a frame only waits where it was sent, and only who has seen the message sends it
  have hv : S.seen v = true := by
    refine Bool.not_eq_false _ ▸ fun hv => ?_
    have hsilent := h.silent v p hv
    unfold sent at hsilent
    omega
  have hwait : 0 < ((S.emit links p (some v)).hand p).waiting v p := by
    simp only [hand, Spread.emit]
    omega
  have hemit := h.toRouted.emit hp (s := some v) (fun _ h => by cases h; exact hv)
  have hrouted : Routed links ((S.emit links p (some v)).hand p) :=
    ⟨hemit.once, hemit.silent, hemit.linked, hemit.covered⟩
  have htake := hrouted.take hwait ((seen_emit links p (some v) p).2 (.inr rfl))
  refine ⟨⟨htake.once, htake.silent, htake.linked, htake.covered⟩, fun x y hxy => ?_,
    h.handed_emit hp (some v), fun x hx => (seen_emit links p (some v) x).2 (.inl (h.ownSeen x hx))⟩
  refine ⟨?_, (sent_take hwait x y).trans ?_⟩
  all_goals simp only [Spread.accept, Bool.or_eq_true, Bool.and_eq_true, beq_iff_eq] at hxy
  · rcases hxy with hxy | ⟨rfl, -⟩
    · exact (h.noEcho_emit hp (some v) x y hxy).1
    · exact (seen_emit links x (some v) x).2 (.inr rfl)
  · rcases hxy with hxy | ⟨rfl, rfl⟩
    · exact (h.noEcho_emit hp (some v) x y hxy).2
    · change (S.emit links x (some y)).sent x y = 0
      rw [sent_emit, h.silent x y hp, if_neg fun hsend => hsend.2.2 rfl]

/-- **Every step keeps the account in order.** -/
theorem step (h : Sound links S) (hstep : Step links S S') : Sound links S' := by
  cases hstep with
  | other => exact h
  | broadcast v hv => exact h.broadcast hv
  | inject v hv => exact h.inject hv
  | accept v p hw hp => exact h.accept hw hp
  | drop v p hw hp =>
    refine ⟨h.toRouted.take hw hp, fun x y hxy => ?_, h.handed, h.ownSeen⟩
    rw [sent_take hw]
    exact h.noEcho x y hxy

/-- Once no frame waits, everyone within reach of a node that has seen the message has seen it. -/
theorem seen_of_connected (h : Sound links S) (hquiet : ∀ v p, S.waiting v p = 0) {v p : PeerId}
    (hconn : Relation.ReflTransGen (fun a b => b ∈ links a) v p) (hv : S.seen v = true) :
    S.seen p = true := by
  induction hconn with
  | refl => exact hv
  | tail _ hlink ih =>
    refine (h.covered _ _ hlink ih).resolve_right ?_
    rw [hquiet]
    exact Nat.lt_irrefl 0

end Sound

end Spread

end SignetFederation
