import SignetFederation.Proofs.Wire.Decoders

/-!
# Forms that end by themselves

A form that `Closes` tells a decoder where it ends: what follows it is left, and without its end the
decoder runs out of bytes, wherever the cut is. No other fault comes before that one. A count is only
compared with the least of its width once all its bytes are there, so this holds of compact sizes
too.

Forms that close also do so one after another (`Closes.bind`). If parts are cut, the cut lies in one
of them, and those before it were read.
-/

namespace SignetFederation

namespace Decoder

variable {α β : Type}

/-- A decoder reads a value from the front of whatever begins with the form, and runs out of bytes
on whatever the form goes on behind. -/
structure Closes (item : Decoder α) (form : Bytes) (v : α) : Prop where
  reads : ∀ rest, item (form ++ rest) = .ok (v, rest)
  runsOut : ∀ {front rest : Bytes}, form = front ++ rest → rest ≠ [] →
    item front = .error .endOfData

/-- A step that fails is the last one. -/
theorem bind_of_error {x : Decoder α} {f : α → Decoder β} {b : Bytes} {why : DecodeFault}
    (h : x b = .error why) : (x >>= f) b = .error why := by
  change (x b >>= fun p => f p.1 p.2) = _
  rw [h]
  rfl

namespace Closes

theorem pure (v : α) : Closes (Pure.pure v) [] v where
  reads _ := rfl
  runsOut h hrest := absurd (List.append_eq_nil_iff.1 h.symm).2 hrest

theorem bind {x : Decoder α} {f : α → Decoder β} {form form' : Bytes} {a : α} {b : β}
    (hx : Closes x form a) (hf : Closes (f a) form' b) : Closes (x >>= f) (form ++ form') b where
  reads rest := by rw [List.append_assoc, bind_of_ok (hx.reads _), hf.reads]
  runsOut {front rest} h hrest := by
    rcases List.append_eq_append_iff.1 h with ⟨more, rfl, hmore⟩ | ⟨_ | ⟨c, more⟩, hform, hmore⟩
    · rw [bind_of_ok (hx.reads more), hf.runsOut hmore hrest]
    · -- the cut is between the two parts
      obtain rfl : form = front := by rw [hform, List.append_nil]
      have hfirst := hx.reads []
      rw [List.append_nil] at hfirst
      rw [bind_of_ok hfirst]
      exact hf.runsOut hmore.symm hrest
    · exact bind_of_error (hx.runsOut hform (List.cons_ne_nil c more))

/-- What is made of a value without reading on closes with it. -/
theorem bind_pure {x : Decoder α} {f : α → Decoder β} {form : Bytes} {a : α} {b : β}
    (hx : Closes x form a) (hf : f a = Pure.pure b) : Closes (x >>= f) form b := by
  have h := hx.bind (hf ▸ pure b)
  rwa [List.append_nil] at h

/-- What begins a form is not all of it. -/
theorem endOfData_of_proper {item : Decoder α} {form front : Bytes} {v : α} (h : Closes item form v)
    (hfront : front <+: form) (hne : front ≠ form) : item front = .error .endOfData := by
  obtain ⟨rest, rfl⟩ := hfront
  refine h.runsOut rfl ?_
  rintro rfl
  exact hne (List.append_nil front).symm

end Closes

/-! ## Bytes and numbers -/

theorem length_lt_of_cut {form front rest : Bytes} (h : form = front ++ rest) (hrest : rest ≠ []) :
    front.length < form.length := by
  have := List.length_pos_iff.2 hrest
  rw [h, List.length_append]
  omega

theorem cut_eq_none_of_lt {n : Nat} {b : Bytes} (h : b.length < n) : Bytes.cut n b = none := by
  unfold Bytes.cut
  refine if_neg ?_
  rw [List.length_take]
  omega

theorem closes_take (b : Bytes) : Closes (take b.length) b b where
  reads rest := take_append b rest
  runsOut h hrest := by
    unfold take
    rw [cut_eq_none_of_lt (length_lt_of_cut h hrest)]

theorem closes_fixed {n : Nat} (a : FixedBytes n) : Closes (fixed n) a.toBytes a where
  reads rest := fixed_append a rest
  runsOut h hrest := by
    have hlt := length_lt_of_cut h hrest
    rw [a.length_eq] at hlt
    unfold fixed
    refine dif_neg ?_
    rw [List.length_take]
    omega

theorem closes_natLE {k n : Nat} (h : n < 256 ^ k) : Closes (natLE k) (Bytes.le k n) n where
  reads rest := natLE_append k n rest h
  runsOut h hrest := by
    have hlt := length_lt_of_cut h hrest
    rw [Bytes.length_le] at hlt
    unfold natLE
    rw [cut_eq_none_of_lt hlt]

theorem closes_u64 (n : UInt64) : Closes u64 (Bytes.le 8 n.toNat) n := by
  refine (closes_natLE (k := 8) n.toNat_lt).bind_pure ?_
  rw [UInt64.ofNat_toNat]

/-- Values that close one by one close as a row. -/
theorem closes_many {item : Decoder α} {form : α → Bytes} (hitem : ∀ v, Closes item (form v) v)
    (vs : List α) : Closes (many item vs.length) (vs.flatMap form) vs := by
  -- the values read so far are kept last first
  have honto : ∀ acc, Closes (manyOnto item vs.length acc) (vs.flatMap form) (acc.reverse ++ vs) := by
    induction vs with
    | nil =>
      intro acc
      rw [List.append_nil]
      exact .pure acc.reverse
    | cons v vs ih =>
      intro acc
      have hstep : manyOnto item (vs.length + 1) acc =
          item >>= fun v => manyOnto item vs.length (v :: acc) := by
        funext b
        change _ = item b >>= fun p => manyOnto item vs.length (p.1 :: acc) p.2
        rw [manyOnto]
        cases item b <;> rfl
      rw [List.length_cons, List.flatMap_cons, hstep]
      have hrest := ih (v :: acc)
      rw [List.reverse_cons, List.append_assoc, List.singleton_append] at hrest
      exact (hitem v).bind hrest
  exact honto []

end Decoder

/-! ## Counts -/

namespace CompactSize

open Decoder (Closes)

theorem closes_wide {k least n : Nat} (hleast : least ≤ n) (hlt : n < 256 ^ k) :
    Closes (wide k least) (Bytes.le k n) n where
  reads rest := wide_append rest hleast hlt
  runsOut h hrest := by
    unfold wide
    rw [(Decoder.closes_natLE hlt).runsOut h hrest]

/-- The bytes behind a mark close with the mark before them. -/
theorem closes_marked {x : UInt8} {item : Decoder Nat} {form : Bytes} {n : Nat}
    (hmark : ∀ rest, decode (x :: rest) = item rest) (h : Closes item form n) :
    Closes decode (x :: form) n where
  reads rest := by rw [List.cons_append, hmark, h.reads]
  runsOut {front rest} hfront hrest := by
    cases front with
    | nil => rfl
    | cons y front =>
      obtain ⟨rfl, hform⟩ := List.cons.inj hfront
      rw [hmark, h.runsOut hform hrest]

theorem closes_decode {n : Nat} (h : n < 2 ^ 64) : Closes decode (encode n) n := by
  unfold encode
  split
  · next hn =>
    refine ⟨fun rest => ?_, fun {front rest} hfront hrest => ?_⟩
    · have hread := decode_encode_append rest h
      rwa [encode, if_pos hn] at hread
    · -- a single byte is cut by leaving it out
      cases front with
      | nil => rfl
      | cons y front =>
        have hempty := (List.cons.inj hfront).2
        exact absurd (List.append_eq_nil_iff.1 hempty.symm).2 hrest
  · split
    · exact closes_marked (fun _ => rfl) (closes_wide (k := 2) (by omega) (by omega))
    · split
      · exact closes_marked (fun _ => rfl) (closes_wide (k := 4) (by omega) (by omega))
      · exact closes_marked (fun _ => rfl) (closes_wide (k := 8) (by omega) (by omega))

/-- What reads a count and goes on by it is a step behind the count. -/
theorem eq_bind_of_decode {α : Type} {counted : Decoder α} {item : Nat → Decoder α}
    (herror : ∀ {b why}, decode b = .error why → counted b = .error why)
    (hok : ∀ {b n rest}, decode b = .ok (n, rest) → counted b = item n rest) :
    counted = decode >>= item := by
  funext b
  cases h : decode b with
  | error why => rw [herror h, Decoder.bind_of_error h]
  | ok p => rw [hok h, Decoder.bind_of_ok h]

theorem closes_bytes {b : Bytes} (h : b.length < 2 ^ 64) : Closes bytes (encodeBytes b) b := by
  have hstep : bytes = decode >>= Decoder.take := by
    refine eq_bind_of_decode (fun hdecode => ?_) fun hdecode => ?_
    · unfold bytes
      rw [hdecode]
    · unfold bytes
      rw [hdecode]
  rw [hstep]
  exact (closes_decode h).bind (Decoder.closes_take b)

end CompactSize

end SignetFederation
