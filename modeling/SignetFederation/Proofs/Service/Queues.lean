import Mathlib.Algebra.Ring.Nat
import Mathlib.Data.List.Perm.Basic
import SignetFederation.Service.Node

/-!
# The queues of peers

Sending a frame to some peers puts it into the queues of those that are registered and served, and
changes nothing else (`sendAll_gains`, `mem_framesFor_sendAll`). Frames may be taken out of a queue in
any order (`takeFrameAt`).
-/

namespace SignetFederation

/-- A sum over a list in which one element is replaced. -/
theorem sum_map_set {α : Type} {l : List α} {i : Nat} {a : α} (h : l[i]? = some a) (f : α → Nat)
    (a' : α) : ((l.set i a').map f).sum + f a = (l.map f).sum + f a' := by
  induction l generalizing i with
  | nil => cases h
  | cons b l ih =>
    cases i with
    | zero =>
      cases h
      simp only [List.set_cons_zero, List.map_cons, List.sum_cons]
      omega
    | succ i =>
      have hrest := ih h
      simp only [List.set_cons_succ, List.map_cons, List.sum_cons]
      omega

namespace PeerQueues

/-- The frames that wait for a peer. -/
def framesFor (p : PeerQueues) (peer : PeerId) : List Bytes :=
  (p.queues[peer]?.map PeerQueue.frames).getD []

/-- The number of frames that wait. -/
def load (p : PeerQueues) : Nat := (p.queues.map fun q => q.frames.length).sum

/-- A peer is registered, and its frames are not refused. -/
def Serves (p : PeerQueues) (peer : PeerId) : Prop :=
  ∃ q, p.queues[peer]? = some q ∧ q.isRegistered = true ∧ q.isOpen = true

variable {p p' p'' : PeerQueues} {peer : PeerId} {frame : Bytes} {k k' : Nat}

theorem mem_registeredFrom_iff {queues : List PeerQueue} {index : Nat} :
    peer ∈ registeredFrom index queues ↔
      ∃ n q, peer = index + n ∧ queues[n]? = some q ∧ q.isRegistered = true := by
  induction queues generalizing index with
  | nil => simp [registeredFrom]
  | cons first rest ih =>
    have hrest : (∃ n q, peer = index + 1 + n ∧ rest[n]? = some q ∧ q.isRegistered = true) ↔
        ∃ n q, peer = index + (n + 1) ∧ (first :: rest)[n + 1]? = some q ∧
          q.isRegistered = true := by
      simp only [List.getElem?_cons_succ, Nat.add_assoc, Nat.add_comm 1]
    have hhead : peer ∈ registeredFrom index (first :: rest) ↔
        (peer = index ∧ first.isRegistered = true) ∨ peer ∈ registeredFrom (index + 1) rest := by
      rw [registeredFrom]
      cases first.isRegistered <;> simp
    rw [hhead, ih, hrest]
    constructor
    · rintro (⟨rfl, hregistered⟩ | ⟨n, hn⟩)
      · exact ⟨0, first, rfl, rfl, hregistered⟩
      · exact ⟨n + 1, hn⟩
    · rintro ⟨_ | n, q, hpeer, hq, hregistered⟩
      · cases hq
        exact .inl ⟨hpeer, hregistered⟩
      · exact .inr ⟨n, q, hpeer, hq, hregistered⟩

theorem mem_registered_of_queue {q : PeerQueue} (h : p.queues[peer]? = some q)
    (hregistered : q.isRegistered = true) : peer ∈ p.registered :=
  mem_registeredFrom_iff.2 ⟨peer, q, (Nat.zero_add peer).symm, h, hregistered⟩

/-! ## Replacing a queue -/

theorem registeredFrom_set {queues : List PeerQueue} {q : PeerQueue}
    (h : queues[peer]? = some q) (q' : PeerQueue) (hsame : q'.isRegistered = q.isRegistered)
    (index : Nat) :
    registeredFrom index (queues.set peer q') = registeredFrom index queues := by
  induction queues generalizing peer index with
  | nil => rfl
  | cons first rest ih =>
    cases peer with
    | zero =>
      cases h
      simp only [List.set_cons_zero, registeredFrom, hsame]
    | succ peer =>
      simp only [List.set_cons_succ, registeredFrom, ih h]

theorem registered_set {q q' : PeerQueue} (h : p.queues[peer]? = some q)
    (hsame : q'.isRegistered = q.isRegistered) :
    (⟨p.queues.set peer q'⟩ : PeerQueues).registered = p.registered :=
  registeredFrom_set h q' hsame 0

theorem framesFor_set {q : PeerQueue} (h : p.queues[peer]? = some q) (q' : PeerQueue)
    (other : PeerId) : (⟨p.queues.set peer q'⟩ : PeerQueues).framesFor other =
      if other = peer then q'.frames else p.framesFor other := by
  unfold framesFor
  by_cases hother : other = peer
  · subst hother
    rw [List.getElem?_set_self (List.getElem?_eq_some_iff.1 h).1, if_pos rfl]
    rfl
  · rw [List.getElem?_set_ne (Ne.symm hother), if_neg hother]

theorem serves_set {q q' : PeerQueue} (h : p.queues[peer]? = some q)
    (hregistered : q'.isRegistered = q.isRegistered) (hopen : q'.isOpen = q.isOpen)
    (other : PeerId) : (⟨p.queues.set peer q'⟩ : PeerQueues).Serves other ↔ p.Serves other := by
  unfold Serves
  by_cases hother : other = peer
  · subst hother
    simp [List.getElem?_set_self (List.getElem?_eq_some_iff.1 h).1, h, hregistered, hopen]
  · simp [List.getElem?_set_ne (Ne.symm hother)]

theorem load_set {q : PeerQueue} (h : p.queues[peer]? = some q) (q' : PeerQueue) :
    (⟨p.queues.set peer q'⟩ : PeerQueues).load + q.frames.length = p.load + q'.frames.length :=
  sum_map_set h (fun q => q.frames.length) q'

theorem load_eq_zero (h : ∀ peer, p.framesFor peer = []) : p.load = 0 := by
  refine List.sum_eq_zero_iff_forall_eq_nat.2 fun n hn => ?_
  obtain ⟨q, hq, rfl⟩ := List.mem_map.1 hn
  obtain ⟨peer, hpeer⟩ := List.mem_iff_getElem?.1 hq
  have hnone := h peer
  unfold framesFor at hnone
  rw [hpeer] at hnone
  exact congrArg List.length hnone

/-! ## Sending -/

/-- The queues after sending a frame some times: it may be new in some of them, nothing is lost, and
the peers are the same. -/
structure Gains (frame : Bytes) (k : Nat) (p p' : PeerQueues) : Prop where
  registered : p'.registered = p.registered
  serves : ∀ peer, p'.Serves peer ↔ p.Serves peer
  keeps : ∀ peer, ∀ f ∈ p.framesFor peer, f ∈ p'.framesFor peer
  only : ∀ peer, ∀ f ∈ p'.framesFor peer,
    f ∈ p.framesFor peer ∨ (f = frame ∧ peer ∈ p.registered)
  load : p'.load ≤ p.load + k

theorem Gains.refl (frame : Bytes) (p : PeerQueues) : Gains frame 0 p p :=
  ⟨rfl, fun _ => Iff.rfl, fun _ _ h => h, fun _ _ h => .inl h, Nat.le_refl _⟩

theorem Gains.trans (h : Gains frame k p p') (h' : Gains frame k' p' p'') :
    Gains frame (k + k') p p'' where
  registered := h'.registered.trans h.registered
  serves peer := (h'.serves peer).trans (h.serves peer)
  keeps peer f hf := h'.keeps peer f (h.keeps peer f hf)
  only peer f hf := (h'.only peer f hf).elim (h.only peer f) fun hnew =>
    .inr ⟨hnew.1, h.registered ▸ hnew.2⟩
  load := by
    have := h.load
    have := h'.load
    omega

theorem Gains.mono (h : Gains frame k p p') (hle : k ≤ k') : Gains frame k' p p' :=
  { h with load := Nat.le_trans h.load (Nat.add_le_add_left hle _) }

/-- Sending to one peer, if it does not fail. -/
theorem gains_of_push (h : p.push peer frame = .ok p') :
    Gains frame 1 p p' ∧ frame ∈ p'.framesFor peer := by
  unfold push at h
  split at h
  · next q hq =>
    split at h
    · cases h
    · next hregistered =>
      split at h
      · cases h
      · cases h
        have hpeer := mem_registered_of_queue hq (by simpa using hregistered)
        have hframes := framesFor_set hq { q with frames := q.frames ++ [frame] }
        have hbefore : p.framesFor peer = q.frames := by
          unfold framesFor
          rw [hq]
          rfl
        refine ⟨⟨registered_set hq rfl, serves_set hq rfl rfl, fun other f hf => ?_,
          fun other f hf => ?_, ?_⟩, ?_⟩
        · rw [hframes]
          split
          · next hother =>
            subst hother
            rw [hbefore] at hf
            exact List.mem_append_left _ hf
          · exact hf
        · rw [hframes] at hf
          split at hf
          · next hother =>
            subst hother
            rw [hbefore]
            exact (List.mem_append.1 hf).imp_right fun hf => ⟨List.mem_singleton.1 hf, hpeer⟩
          · exact .inl hf
        · have hload := load_set hq { q with frames := q.frames ++ [frame] }
          simp only [List.length_append, List.length_singleton] at hload
          omega
        · rw [hframes, if_pos rfl]
          exact List.mem_append_right _ (List.mem_singleton_self frame)
  · cases h

/-- Nothing is refused by who serves a peer. -/
theorem exists_push_of_serves (frame : Bytes) (h : p.Serves peer) :
    ∃ p', p.push peer frame = .ok p' := by
  obtain ⟨q, hq, hregistered, hopen⟩ := h
  refine ⟨⟨p.queues.set peer { q with frames := q.frames ++ [frame] }⟩, ?_⟩
  unfold push
  simp [hq, hregistered, hopen]

theorem sendAll_gains (p : PeerQueues) (frame : Bytes) (targets : List PeerId) :
    Gains frame targets.length p (Transport.sendAll p frame targets).1 := by
  induction targets generalizing p with
  | nil => exact .refl frame p
  | cons peer targets ih =>
    unfold Transport.sendAll
    split
    · next p' h =>
      have hrest := (gains_of_push h).1.trans (ih p')
      rw [Nat.add_comm] at hrest
      exact hrest
    · exact (ih p).mono (Nat.le_succ _)

/-- The frame is in the queues of all targets that are served. -/
theorem mem_framesFor_sendAll {targets : List PeerId} (hmem : peer ∈ targets)
    (h : p.Serves peer) : frame ∈ (Transport.sendAll p frame targets).1.framesFor peer := by
  induction targets generalizing p with
  | nil => cases hmem
  | cons first targets ih =>
    unfold Transport.sendAll
    split
    · next p' hp' =>
      obtain ⟨hgains, hfirst⟩ := gains_of_push hp'
      rcases List.mem_cons.1 hmem with rfl | hrest
      · exact (sendAll_gains p' frame targets).keeps peer frame hfirst
      · exact ih hrest ((hgains.serves peer).2 h)
    · next why hwhy =>
      rcases List.mem_cons.1 hmem with rfl | hrest
      · obtain ⟨p', hp'⟩ := exists_push_of_serves frame h
        change p.push peer frame = _ at hwhy
        rw [hp'] at hwhy
        cases hwhy
      · exact ih hrest h

/-! ## Taking frames -/

/-- Takes the frame at a place out of a queue. -/
def takeFrameAt (p : PeerQueues) (peer : PeerId) (place : Nat) : Option (PeerQueues × Bytes) :=
  p.queues[peer]?.bind fun q => q.frames[place]?.map fun frame =>
    (⟨p.queues.set peer { q with frames := q.frames.eraseIdx place }⟩, frame)

/-- A frame that waits can be taken. -/
theorem exists_takeFrameAt (h : frame ∈ p.framesFor peer) :
    ∃ place p', p.takeFrameAt peer place = some (p', frame) := by
  unfold framesFor at h
  cases hq : p.queues[peer]? with
  | none =>
    rw [hq] at h
    cases h
  | some q =>
    rw [hq] at h
    obtain ⟨place, hplace⟩ := List.mem_iff_getElem?.1 h
    refine ⟨place, ⟨p.queues.set peer { q with frames := q.frames.eraseIdx place }⟩, ?_⟩
    unfold takeFrameAt
    rw [hq, Option.bind_some]
    rw [show q.frames[place]? = some frame from hplace]
    rfl

/-- The queues without one frame. -/
structure Loses (peer : PeerId) (frame : Bytes) (p p' : PeerQueues) : Prop where
  registered : p'.registered = p.registered
  serves : ∀ peer, p'.Serves peer ↔ p.Serves peer
  was : frame ∈ p.framesFor peer
  keeps : ∀ other, ∀ f ∈ p.framesFor other,
    f ∈ p'.framesFor other ∨ (other = peer ∧ f = frame)
  only : ∀ other, ∀ f ∈ p'.framesFor other, f ∈ p.framesFor other
  load : p'.load + 1 = p.load

theorem loses_of_takeFrameAt {place : Nat} (h : p.takeFrameAt peer place = some (p', frame)) :
    Loses peer frame p p' := by
  obtain ⟨q, hq, h⟩ := Option.bind_eq_some_iff.1 h
  obtain ⟨f, hf, heq⟩ := Option.map_eq_some_iff.1 h
  cases heq
  obtain ⟨hlt, rfl⟩ := List.getElem?_eq_some_iff.1 hf
  have hperm := List.getElem_cons_eraseIdx_perm hlt
  have hframes := framesFor_set hq { q with frames := q.frames.eraseIdx place }
  have hbefore : p.framesFor peer = q.frames := by
    unfold framesFor
    rw [hq]
    rfl
  refine ⟨registered_set hq rfl, serves_set hq rfl rfl, ?_, fun other f hf => ?_,
    fun other f hf => ?_, ?_⟩
  · rw [hbefore]
    exact List.getElem_mem hlt
  · rw [hframes]
    split
    · next hother =>
      subst hother
      rw [hbefore] at hf
      exact (List.mem_cons.1 (hperm.mem_iff.2 hf)).symm.imp_right fun hsame => ⟨rfl, hsame⟩
    · exact .inl hf
  · rw [hframes] at hf
    split at hf
    · next hother =>
      subst hother
      rw [hbefore]
      exact hperm.mem_iff.1 (List.mem_cons_of_mem _ hf)
    · exact hf
  · have hload := load_set hq { q with frames := q.frames.eraseIdx place }
    have hlength := hperm.length_eq
    simp only [List.length_cons] at hload hlength
    omega

end PeerQueues

end SignetFederation
