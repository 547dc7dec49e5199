import SignetFederation.Proofs.Relay.Calendar
import SignetFederation.Proofs.Relay.Identity

/-!
# Windows of hashes

A relay remembers the BLAKE3 hash of what tells a message apart (`dedupKey`). The window of an engine
has what is hashed (`keyOf`). Here is why the two decide alike: a function that tells apart the keys
that are put into a window may stand for them (`Mirrors`), since neither expiry nor making room looks
at a key, and the one comparison comes out the same. All that a call asks of the window is one use,
so a run over keys and the history of the hashes go on in step.

The hash is into 32 bytes and there are more keys than that, so it cannot tell all of them apart. What
is asked of it is about one run: it tells apart what is hashed of the messages that this run records
(`HashesApart`). Where it does not, the relay drops a new message as one that it has seen.

Main statement: `hashes_decide_alike`.
-/

namespace SignetFederation

/-- The same use with what stands for the key. -/
def WindowUse.map {κ κ' : Type} (f : κ → κ') : WindowUse κ → WindowUse κ'
  | insert k now => .insert (f k) now
  | expire now => .expire now

namespace SeenWindow

variable {κ κ' : Type} [BEq κ] [Hashable κ] [BEq κ'] [Hashable κ']

/-- A window has the entries of another one, with what stands for the keys in their place. -/
structure Mirrors (f : κ → κ') (w : SeenWindow κ) (w' : SeenWindow κ') : Prop where
  room : w'.capacity = w.capacity
  span : w'.ttl = w.ttl
  order : w'.order = w.order.map (Prod.map f id)
  indexed : Indexed w.order w.seen
  indexed' : Indexed w'.order w'.seen

variable {f : κ → κ'} {w : SeenWindow κ} {w' : SeenWindow κ'} {k : κ} {now : Instant}

theorem mirrors_empty (f : κ → κ') (capacity : Nat) (ttl : Option Int) :
    (empty capacity ttl).Mirrors f (empty capacity ttl) where
  room := rfl
  span := rfl
  order := rfl
  indexed := (sound_empty capacity ttl).indexed
  indexed' := (sound_empty capacity ttl).indexed

omit [BEq κ] [Hashable κ] [BEq κ'] [Hashable κ'] in
theorem map_fst_map (f : κ → κ') (order : List (κ × Instant)) :
    (order.map (Prod.map f id)).map Prod.fst = (order.map Prod.fst).map f := by
  rw [List.map_map, List.map_map]
  rfl

/-- Expiry looks at the moments only. -/
theorem expireFront_alike (f : κ → κ') (ttl : Int) (now : Instant) (order : List (κ × Instant))
    (seen : Std.HashSet κ) (seen' : Std.HashSet κ') :
    Alike (fun r r' => r'.1 = r.1.map (Prod.map f id)) (expireFront ttl now order seen)
      (expireFront ttl now (order.map (Prod.map f id)) seen') := by
  induction order generalizing seen seen' with
  | nil => exact .ok rfl
  | cons x rest ih =>
    obtain ⟨k, noted⟩ := x
    simp only [List.map_cons, Prod.map_apply, id_eq, expireFront]
    cases noted.after? ttl with
    | none => exact .error _
    | some limit =>
      by_cases hlt : now < limit
      · simp only [if_pos hlt]
        exact .ok rfl
      · simp only [if_neg hlt]
        exact ih (seen.erase k) (seen'.erase (f k))

namespace Mirrors

/-- A window has a key exactly if the other one has what stands for it, as long as nothing else in
the window has that stand for it. -/
theorem contains_eq (h : w.Mirrors f w')
    (hapart : ∀ x ∈ w.order, f x.1 = f k → x.1 = k) : w'.contains (f k) = w.contains k := by
  refine Bool.eq_iff_iff.2 ?_
  unfold contains
  rw [h.indexed'.contains_iff, h.indexed.contains_iff, h.order, map_fst_map, List.mem_map]
  constructor
  · rintro ⟨k', hk', heq⟩
    obtain ⟨x, hx, rfl⟩ := List.mem_map.1 hk'
    exact hapart x hx heq ▸ hk'
  · exact fun hk => ⟨k, hk, rfl⟩

variable [LawfulBEq κ] [LawfulBEq κ']

theorem expire (h : w.Mirrors f w') (now : Instant) :
    Alike (Mirrors f) (w.expire now) (w'.expire now) := by
  have horder : Alike (fun w₁ w₁' => w₁'.order = w₁.order.map (Prod.map f id))
      (w.expire now) (w'.expire now) := by
    unfold SeenWindow.expire
    rw [h.span, h.order]
    cases w.ttl with
    | none => exact .ok h.order
    | some ttl =>
      refine (expireFront_alike f ttl now w.order w.seen w'.seen).bind ?_
      rintro ⟨order, seen⟩ ⟨order', seen'⟩ - - hsame
      exact .ok hsame
  refine horder.imp fun w₁ w₁' hw₁ hw₁' hsame => ?_
  obtain ⟨_, hexpired⟩ := expired_of_expire hw₁ h.indexed
  obtain ⟨_, hexpired'⟩ := expired_of_expire hw₁' h.indexed'
  exact ⟨by rw [hexpired'.room, h.room, hexpired.room],
    by rw [hexpired'.span, h.span, hexpired.span], hsame, hexpired.indexed, hexpired'.indexed⟩

/-- Both windows take the key, or neither does. -/
theorem insertAt (h : w.Mirrors f w') (hapart : ∀ x ∈ w.order, f x.1 = f k → x.1 = k)
    (now : Instant) :
    Alike (fun r r' => r.1.Mirrors f r'.1 ∧ r'.2 = r.2) (w.insertAt k now)
      (w'.insertAt (f k) now) := by
  have hreturns : Alike (fun _ _ => True) (w.insertAt k now) (w'.insertAt (f k) now) := by
    unfold SeenWindow.insertAt
    refine (h.expire now).bind fun w₁ w₁' _ _ _ => ?_
    cases w₁.contains k <;> cases w₁'.contains (f k) <;> exact .ok trivial
  refine hreturns.imp fun r r' hr hr' _ => ?_
  obtain ⟨w₁, hexpire, hcases⟩ := insertAt_spec hr h.indexed
  obtain ⟨w₁', hexpire', hcases'⟩ := insertAt_spec hr' h.indexed'
  obtain ⟨_, hsame, hmirrors⟩ := (h.expire now).exists_right hexpire
  obtain rfl := Except.ok.inj (hexpire'.symm.trans hsame)
  obtain ⟨gone, hexpired⟩ := expired_of_expire hexpire h.indexed
  have hcontains : w₁'.contains (f k) = w₁.contains k := hmirrors.contains_eq fun x hx =>
    hapart x (hexpired.order ▸ List.mem_append_right gone hx)
  rcases hcases with ⟨hk, hfresh, hw⟩ | ⟨hk, hfresh, htook⟩
  · rcases hcases' with ⟨-, hfresh', hw'⟩ | ⟨hk', -, -⟩
    · exact ⟨hw ▸ hw' ▸ hmirrors, hfresh'.trans hfresh.symm⟩
    · rw [hcontains, hk] at hk'
      cases hk'
  · rcases hcases' with ⟨hk', -, -⟩ | ⟨-, hfresh', htook'⟩
    · rw [hcontains, hk] at hk'
      cases hk'
    · refine ⟨⟨?_, ?_, ?_, htook.indexed, htook'.indexed⟩, hfresh'.trans hfresh.symm⟩
      · rw [htook'.room, hmirrors.room, htook.room]
      · rw [htook'.span, hmirrors.span, htook.span]
      · rw [htook'.order, hmirrors.order, hmirrors.room, htook.order, List.length_map,
          ← List.map_drop, List.map_append]
        rfl

theorem use {u : WindowUse κ} (h : w.Mirrors f w')
    (hapart : ∀ k now, u = .insert k now → ∀ x ∈ w.order, f x.1 = f k → x.1 = k) :
    Alike (fun r r' => r.1.Mirrors f r'.1 ∧ r'.2 = r.2.map (Prod.map f id)) (w.use u)
      (w'.use (u.map f)) := by
  cases u with
  | insert k now =>
    refine (h.insertAt (hapart k now rfl) now).bind fun r r' _ _ hr => .ok ⟨hr.1, ?_⟩
    rw [hr.2]
    cases r.2 <;> rfl
  | expire now => exact (h.expire now).bind fun _ _ _ _ hmirrors => .ok ⟨hmirrors, rfl⟩

/-- Histories go alike if what stands for keys tells apart all of them. -/
theorem run {keys : Set κ} {uses : List (WindowUse κ)} (h : w.Mirrors f w') (hf : keys.InjOn f)
    (horder : ∀ x ∈ w.order, x.1 ∈ keys) (huses : ∀ k now, .insert k now ∈ uses → k ∈ keys) :
    Alike (fun r r' => r.1.Mirrors f r'.1 ∧ (∀ x ∈ r.1.order, x.1 ∈ keys) ∧
        r'.2 = r.2.map (Prod.map f id))
      (w.run uses) (w'.run (uses.map (WindowUse.map f))) := by
  -- the keys of the window stay among those that were in it or are put in
  induction uses generalizing w w' with
  | nil => exact .ok ⟨h, horder, rfl⟩
  | cons u uses ih =>
    have hu : ∀ k now, u = .insert k now → k ∈ keys := fun k now heq =>
      huses k now (heq ▸ List.mem_cons_self)
    have huse := h.use (u := u) fun k now heq x hx hsame => hf (horder x hx) (hu k now heq) hsame
    refine huse.bind fun r r' hr _ ⟨hstep, haccepted⟩ => ?_
    have hrest := ih hstep (forall_order_of_use hr h.indexed horder hu) fun k now hmem =>
      huses k now (List.mem_cons_of_mem u hmem)
    refine hrest.bind fun s s' _ _ ⟨hlast, hkeys, hlater⟩ => .ok ⟨hlast, hkeys, ?_⟩
    rw [haccepted, hlater, List.map_append]

end Mirrors

end SeenWindow

/-! ## Engines -/

/-- The hash that stands for a key. -/
def MessageKey.digest (k : MessageKey) : Digest := blake3 k.bytes

namespace RelayEngine

variable {e e' : RelayEngine} {c : RelayCall} {calls : List RelayCall} {m : SignetPsbtMessage}
  {now : Instant} {before after steps : List RelayStep} {s : RelayStep}

/-- The uses that calls make of the window. -/
def uses (e : RelayEngine) (calls : List RelayCall) : List (WindowUse MessageKey) :=
  calls.filterMap e.use?

/-- The same uses of a window of hashes. -/
def hashedUses (e : RelayEngine) (calls : List RelayCall) : List (WindowUse Digest) :=
  (e.uses calls).map (WindowUse.map MessageKey.digest)

/-- The keys that calls put into the window. -/
def recordable (e : RelayEngine) (calls : List RelayCall) : Set MessageKey :=
  { k | ∃ now, .insert k now ∈ e.uses calls }

/-- The hash tells apart what is hashed of the messages that calls record. -/
def HashesApart (e : RelayEngine) (calls : List RelayCall) : Prop :=
  ∀ k ∈ e.recordable calls, ∀ k' ∈ e.recordable calls, k.digest = k'.digest → k.bytes = k'.bytes

theorem HashesApart.injOn (h : e.HashesApart calls) :
    (e.recordable calls).InjOn MessageKey.digest :=
  fun k hk k' hk' heq => MessageKey.bytes_inj.1 (h k hk k' hk' heq)

/-- A new window and one of hashes go through a part of some calls alike. -/
theorem mirrors_run {part : List RelayCall}
    (hnew : e.window = .empty e.policy.capacity e.policy.ttlNanos) (hapart : e.HashesApart calls)
    (hpart : part.Sublist calls) :
    Alike (fun r r' => r.1.Mirrors MessageKey.digest r'.1 ∧
        (∀ x ∈ r.1.order, x.1 ∈ e.recordable calls) ∧
        r'.2 = r.2.map (Prod.map MessageKey.digest id))
      (e.window.run (e.uses part))
      ((SeenWindow.empty e.policy.capacity e.policy.ttlNanos).run (e.hashedUses part)) := by
  rw [hnew]
  exact (SeenWindow.mirrors_empty _ _ _).run hapart.injOn (List.forall_mem_nil _) fun _ now hk =>
    ⟨now, (hpart.filterMap _).subset hk⟩

/-- Where a run stands before one of its steps: the calls made so far are a history of the window. -/
theorem run_before_step (h : e.trace calls = .ok (before ++ s :: after)) :
    ∃ w log rest, e.window.run (e.uses (before.map (·.call))) = .ok (w, log) ∧
      s.before = { e with window := w } ∧ s.before.call s.call = .ok (s.after, s.answer) ∧
      calls = before.map (·.call) ++ s.call :: rest := by
  induction before generalizing e calls with
  | nil =>
    cases calls with
    | nil => cases h
    | cons c rest =>
      obtain ⟨e', answer, later, hcall, -, heq⟩ := trace_cons_eq_ok_iff.1 h
      cases heq
      exact ⟨e.window, [], rest, rfl, rfl, hcall, rfl⟩
  | cons first before ih =>
    cases calls with
    | nil => cases h
    | cons c calls =>
      obtain ⟨e', answer, later, hcall, hlater, heq⟩ := trace_cons_eq_ok_iff.1 h
      cases heq
      obtain ⟨w, log, rest, hrun, hbefore, hstep, rfl⟩ := ih hlater
      unfold uses
      rw [List.map_cons]
      cases hu : e.use? c with
      | none =>
        rw [List.filterMap_cons_none hu]
        obtain ⟨_, hidle⟩ := exists_call_of_idle hu
        rw [hidle] at hcall
        cases hcall
        exact ⟨w, log, rest, hrun, hbefore, hstep, rfl⟩
      | some u =>
        rw [List.filterMap_cons_some hu]
        obtain ⟨w₁, accepted, huse, rfl⟩ := (does_call hu).exists_use hcall
        exact ⟨w, accepted ++ log, rest,
          SeenWindow.run_cons_eq_ok_iff.2 ⟨w₁, accepted, log, huse, hrun, rfl⟩, hbefore, hstep, rfl⟩

/-- A message whose signers are known is put into the window. -/
theorem use?_of_message (hm : c.act.message? e.magic = some m) (hknown : e.knowsSigners m = true) :
    e.use? c = some (.insert (e.policy.dedup.keyOf m) c.now) := by
  unfold use?
  cases hact : c.act with
  | handle sender peers m' =>
    rw [hact] at hm
    simp [hm, hknown]
  | handleFrame sender peers frame =>
    rw [hact] at hm
    simp [hm, hknown]
  | originate m' =>
    rw [hact] at hm
    cases hm
  | cleanup =>
    rw [hact] at hm
    cases hm

/-- It is accepted exactly if its key is new there. -/
theorem insertAt_of_handle {sender : Option PeerId} {peers : List PeerId} {decision : Decision}
    (hknown : e.knowsSigners m = true) (h : e.handle sender peers m now = .ok (e', decision)) :
    e.window.insertAt (e.policy.dedup.keyOf m) now = .ok (e'.window, decision.isAccepted) := by
  unfold handle at h
  rw [hknown] at h
  obtain ⟨⟨e₁, fresh⟩, hrecord, hdecision⟩ := bind_eq_ok_iff.1 h
  obtain ⟨⟨w, fresh'⟩, hinsert, heq⟩ := bind_eq_ok_iff.1 hrecord
  cases heq
  cases fresh with
  | false =>
    cases hdecision
    exact hinsert
  | true =>
    cases hdecision
    exact hinsert

/-- **Hashes decide as keys do.** Let the hash tell apart what is hashed of the messages that a run of
a new engine records. A window of hashes is used as the engine's window is, with the hash of a message
in the place of its key. Then the run returns exactly if that history does. Before each step, the
window of hashes has the same entries in the same order. A message whose signers are known is accepted
if its hash is taken, and dropped as seen if it is not; and the windows have the same entries again. -/
theorem hashes_decide_alike (hnew : e.window = .empty e.policy.capacity e.policy.ttlNanos)
    (hapart : e.HashesApart calls) :
    ((∃ steps, e.trace calls = .ok steps) ↔ ∃ r,
      (SeenWindow.empty e.policy.capacity e.policy.ttlNanos).run (e.hashedUses calls) = .ok r) ∧
    ∀ before s after, e.trace calls = .ok (before ++ s :: after) →
      ∃ w log, (SeenWindow.empty e.policy.capacity e.policy.ttlNanos).run
          (e.hashedUses (before.map (·.call))) = .ok (w, log) ∧
        s.before.window.Mirrors MessageKey.digest w ∧
        ∀ m, s.call.act.message? e.magic = some m → ¬ Strange e.quorum m →
          ∃ w' fresh, w.insertAt (e.dedupKey m) s.call.now = .ok (w', fresh) ∧
            s.after.window.Mirrors MessageKey.digest w' ∧
            ∃ decision, s.answer.decision? = some decision ∧ decision.isAccepted = fresh ∧
              (decision = .drop .duplicate ↔ fresh = false) := by
  refine ⟨exists_trace_iff_run.trans (mirrors_run hnew hapart (.refl calls)).exists_iff, ?_⟩
  intro before s after htrace
  obtain ⟨w, log, rest, hrun, hbefore, hstep, hcalls⟩ := run_before_step htrace
  obtain ⟨⟨w', log'⟩, hrun', hw', hkeys, -⟩ := (mirrors_run hnew hapart
    (hcalls ▸ List.sublist_append_left _ _)).exists_right hrun
  refine ⟨w', log', hrun', by rwa [hbefore], fun m hm hstrange => ?_⟩
  have hmagic : s.before.magic = e.magic := by rw [hbefore]
  obtain ⟨sender, peers, decision, hhandle, hdecision⟩ :=
    exists_handle_of_call (hmagic ▸ hm) hstep
  have hknown : e.knowsSigners m = true := by
    rw [← Bool.not_eq_false, knowsSigners_eq_false_iff]
    exact hstrange
  rw [hbefore] at hhandle
  have hinsert := insertAt_of_handle (e := { e with window := w }) hknown hhandle
  have hkey : e.policy.dedup.keyOf m ∈ e.recordable calls := by
    refine ⟨s.call.now, List.mem_filterMap.2 ⟨s.call, ?_, use?_of_message hm hknown⟩⟩
    rw [hcalls]
    exact List.mem_append_right _ List.mem_cons_self
  obtain ⟨⟨w₁, fresh⟩, hinsert', hw₁, hfresh⟩ := (hw'.insertAt
    (fun x hx heq => hapart.injOn (hkeys x hx) hkey heq) s.call.now).exists_right hinsert
  refine ⟨w₁, fresh, hinsert', hw₁, decision, hdecision, hfresh.symm, ?_⟩
  rw [show fresh = decision.isAccepted from hfresh]
  rcases handle_cases hhandle with ⟨hstrange', -⟩ | ⟨-, rfl | rfl⟩
  · exact absurd hstrange' hstrange
  · exact iff_of_true rfl rfl
  · exact iff_of_false nofun nofun

/-- The hash tells apart what is hashed of two messages. -/
example : sampleCounting.HashesApart sampleBack := by
  have hdiffers : (⟨1, []⟩ : MessageKey).digest ≠ (⟨2, []⟩ : MessageKey).digest := by
    decide +kernel
  have huses : ∀ k ∈ sampleCounting.recordable sampleBack, k = ⟨1, []⟩ ∨ k = ⟨2, []⟩ := by
    rintro k ⟨now, hk⟩
    have hids : distinctIds [] = [] := distinctIds_eq_of_pairwise .nil fun _ => .rfl
    simp [uses, use?, sampleBack, RelayAct.message?, knowsSigners, sampleCounting, make,
      DedupKey.keyOf, hids] at hk
    exact hk.imp And.left And.left
  intro k hk k' hk' heq
  rcases huses k hk with rfl | rfl <;> rcases huses k' hk' with rfl | rfl
  · rfl
  · exact absurd heq hdiffers
  · exact absurd heq.symm hdiffers
  · rfl

end RelayEngine

end SignetFederation
