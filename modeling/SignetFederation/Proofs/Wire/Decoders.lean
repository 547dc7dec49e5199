import SignetFederation.Proofs.Outcome
import SignetFederation.Proofs.Wire.Numbers

/-!
# Decoders and the forms that they read

A decoder is `Faithful` to a form if it takes the form of its value off the front, and `Exact` if it
reads the forms of all values that fit besides. Parts that are read one after another keep both. Of
a value that is exactly read no form begins another one: bytes that follow are left over
(`Exact.append`), and a form that is cut short is not read (`Exact.exists_error_of_cut`).
-/

namespace SignetFederation

/-! ## Reading in steps -/

namespace Decoder

variable {α β : Type}

/-- A step reads on where the one before it stopped. -/
theorem bind_of_ok {x : Decoder α} {f : α → Decoder β} {b rest : Bytes} {a : α}
    (h : x b = .ok (a, rest)) : (x >>= f) b = f a rest := by
  change (x b >>= fun p => f p.1 p.2) = _
  rw [h]
  rfl

/-! ## Faithful decoders -/

/-- A decoder takes the form of the value that it reads off the front, and nothing else. -/
def Faithful (item : Decoder α) (form : α → Bytes) : Prop :=
  ∀ {b rest : Bytes} {v : α}, item b = .ok (v, rest) → b = form v ++ rest

/-- A step that answers was reached with what the one before it left. -/
theorem run_bind_eq_ok_iff {x : Decoder α} {f : α → Decoder β} {b : Bytes} {r : β × Bytes} :
    (x >>= f) b = .ok r ↔ ∃ a rest, x b = .ok (a, rest) ∧ f a rest = .ok r := by
  change (x b >>= fun p => f p.1 p.2) = .ok r ↔ _
  rw [bind_eq_ok_iff]
  exact Prod.exists

theorem run_pure_eq_ok_iff {v w : α} {b rest : Bytes} :
    (pure v : Decoder α) b = .ok (w, rest) ↔ v = w ∧ b = rest := by
  change Except.ok (v, b) = .ok (w, rest) ↔ _
  rw [Except.ok.injEq, Prod.mk.injEq]

theorem eq_append_of_take {n : Nat} {b front rest : Bytes} (h : take n b = .ok (front, rest)) :
    b = front ++ rest ∧ front.length = n := by
  unfold take at h
  split at h
  · next parts hcut =>
    cases h
    exact Bytes.eq_append_of_cut hcut
  · cases h

theorem faithful_u64 : Faithful u64 fun n => Bytes.le 8 n.toNat := by
  intro b rest v h
  unfold u64 at h
  obtain ⟨n, mid, hn, hv⟩ := run_bind_eq_ok_iff.1 h
  obtain ⟨rfl, rfl⟩ := run_pure_eq_ok_iff.1 hv
  obtain ⟨hb, hlt⟩ := eq_append_of_natLE hn
  change b = Bytes.le 8 (UInt64.ofNat n).toNat ++ mid
  rwa [UInt64.toNat_ofNat_of_lt' (by simpa using hlt)]

/-- A row of `n` values is as long as it should be, and each of them is faithfully read. -/
theorem eq_append_of_many {item : Decoder α} {form : α → Bytes} (hitem : Faithful item form)
    {n : Nat} {b rest : Bytes} {vs : List α} (h : many item n b = .ok (vs, rest)) :
    b = vs.flatMap form ++ rest ∧ vs.length = n := by
  -- the values read so far stand before the others, last first
  have honto : ∀ n acc b, manyOnto item n acc b = .ok (vs, rest) →
      ∃ more, vs = acc.reverse ++ more ∧ b = more.flatMap form ++ rest ∧ more.length = n := by
    intro n
    induction n with
    | zero =>
      intro acc b h
      cases h
      exact ⟨[], (List.append_nil _).symm, rfl, rfl⟩
    | succ n ih =>
      intro acc b h
      unfold manyOnto at h
      split at h
      · next v mid hv =>
        obtain ⟨more, hvs, hmid, hlen⟩ := ih (v :: acc) mid h
        refine ⟨v :: more, by rw [hvs]; simp, ?_, by rw [List.length_cons, hlen]⟩
        rw [hitem hv, hmid, List.flatMap_cons, List.append_assoc]
      · cases h
  obtain ⟨more, rfl, hb, hlen⟩ := honto n [] b h
  exact ⟨hb, hlen⟩

/-- A whole byte string that is faithfully read is the form of its value. -/
theorem Faithful.eq_of_whole {item : Decoder α} {form : α → Bytes} (hitem : Faithful item form)
    {b : Bytes} {v : α} (h : item.whole b = .ok v) : b = form v := by
  unfold whole at h
  split at h
  · next hv =>
    cases h
    rw [hitem hv, List.append_nil]
  · cases h
  · cases h

/-! ## Exact decoders -/

theorem take_eq_ok_iff {n : Nat} {b front rest : Bytes} :
    take n b = .ok (front, rest) ↔ b = front ++ rest ∧ front.length = n := by
  constructor
  · exact eq_append_of_take
  · rintro ⟨rfl, rfl⟩
    exact take_append front rest

/-- A decoder reads exactly the forms of the values that fit, whatever follows them. -/
def Exact (item : Decoder α) (form : α → Bytes) (fits : α → Prop) : Prop :=
  ∀ (b rest : Bytes) (v : α), item b = .ok (v, rest) ↔ b = form v ++ rest ∧ fits v

namespace Exact

variable {item : Decoder α} {form : α → Bytes} {fits : α → Prop}

/-- What follows a value does not matter, and is left. -/
theorem append (h : Exact item form fits) {b rest : Bytes} {v : α} (hv : item b = .ok (v, rest))
    (more : Bytes) : item (b ++ more) = .ok (v, rest ++ more) := by
  obtain ⟨rfl, hfits⟩ := (h b rest v).1 hv
  exact (h _ _ _).2 ⟨List.append_assoc _ _ _, hfits⟩

/-- The form of a value that is cut short is not the beginning of another one either. -/
theorem exists_error_of_cut (h : Exact item form fits) {b more : Bytes} {v : α}
    (hv : item (b ++ more) = .ok (v, [])) (hmore : more ≠ []) : ∃ why, item b = .error why := by
  cases hb : item b with
  | error why => exact ⟨why, rfl⟩
  | ok r =>
    obtain ⟨w, rest⟩ := r
    -- what the shorter string begins with, the longer one begins with too
    have hw := h.append hb more
    rw [hv] at hw
    have hrest : [] = rest ++ more := (Prod.mk.inj (Except.ok.inj hw)).2
    exact absurd (List.append_eq_nil_iff.1 hrest.symm).2 hmore

end Exact

end Decoder

/-! ## Byte strings behind their lengths -/

open Decoder (Faithful Exact)

theorem CompactSize.faithful_bytes : Faithful CompactSize.bytes CompactSize.encodeBytes := by
  intro b rest v h
  unfold CompactSize.bytes at h
  split at h
  · next n mid hn =>
    obtain ⟨rfl, rfl⟩ := Decoder.eq_append_of_take h
    rw [(CompactSize.eq_append_of_decode hn).1, CompactSize.encodeBytes, List.append_assoc]
  · cases h

namespace CompactSize

theorem exact_decode : Exact decode encode fun n => n < 2 ^ 64 := by
  intro b rest n
  constructor
  · exact eq_append_of_decode
  · rintro ⟨rfl, hn⟩
    exact decode_encode_append rest hn

theorem length_encode_pos (n : Nat) : 0 < (encode n).length := by
  unfold encode
  split
  · exact Nat.one_pos
  · split
    · exact Nat.succ_pos _
    · split <;> exact Nat.succ_pos _

theorem length_encodeBytes (b : Bytes) :
    (encodeBytes b).length = (encode b.length).length + b.length := List.length_append

/-- A short byte string stands behind one byte. -/
theorem encodeBytes_of_short {b : Bytes} (h : b.length < 0xfd) :
    encodeBytes b = UInt8.ofNat b.length :: b := by
  rw [encodeBytes, encode, if_pos h]
  rfl

/-- A byte string is read within the vector limit exactly if it and its length keep to it. -/
theorem exact_boundedBytes :
    Exact boundedBytes encodeBytes fun v => (encodeBytes v).length ≤ vectorLimit := by
  intro b rest v
  unfold boundedBytes
  constructor
  · intro h
    split at h
    · next n mid hn =>
      obtain ⟨hlimit, h⟩ := ite_error_eq_ok_iff.1 h
      obtain ⟨rfl, rfl⟩ := Decoder.take_eq_ok_iff.1 h
      obtain ⟨rfl, _⟩ := (exact_decode _ _ _).1 hn
      rw [← length_encodeBytes] at hlimit
      exact ⟨(List.append_assoc _ _ _).symm, Nat.not_lt.1 hlimit⟩
    · cases h
  · rintro ⟨rfl, hlimit⟩
    have hsize := length_encodeBytes v ▸ hlimit
    have hlt : v.length < 2 ^ 64 := by
      unfold vectorLimit at hsize
      omega
    rw [encodeBytes, List.append_assoc, decode_encode_append _ hlt]
    simp only
    rw [if_neg (Nat.not_lt.2 hsize)]
    exact Decoder.take_append v rest

end CompactSize

end SignetFederation
