/-!
# Maps in the order of their keys

A map is the list of its entries, in strictly ascending order of their keys. Keys are compared by
their rank, a row of numbers that tells keys apart. Main statements: an inserted key is found and
the others are as before (`get?_insert`); looking a key up finds its entry and no other, so the
values of the keys determine a map (`mem_entries_iff`, `ext_get?`); a list of entries is a map in
some order exactly if no key comes twice, and then its entries are a permutation of the list
(`perm_of_ofList?`).
-/

namespace SignetFederation

/-- Keys with a total order, the lexicographic one of their ranks. -/
class Ranked (κ : Type) where
  rank : κ → List Nat
  rank_injective : ∀ a b, rank a = rank b → a = b

/-- The rank of a byte string: its bytes. -/
def byteRank (b : List UInt8) : List Nat := b.map UInt8.toNat

theorem byteRank_injective {a b : List UInt8} (h : byteRank a = byteRank b) : a = b :=
  List.map_inj_right (fun _ _ => UInt8.toNat_inj.1) |>.1 h

/-- Entries in strictly ascending order of their keys. -/
structure SortedMap (κ ν : Type) [Ranked κ] where
  entries : List (κ × ν)
  sorted : entries.Pairwise fun a b => Ranked.rank a.1 < Ranked.rank b.1

namespace SortedMap

variable {κ ν : Type} [Ranked κ]

open Ranked (rank)

/-- The map without entries. -/
def empty : SortedMap κ ν := ⟨[], .nil⟩

instance : EmptyCollection (SortedMap κ ν) := ⟨empty⟩

instance : Inhabited (SortedMap κ ν) := ⟨empty⟩

theorem ext_entries {m n : SortedMap κ ν} (h : m.entries = n.entries) : m = n := by
  cases m; cases n; simp_all

instance [DecidableEq κ] [DecidableEq ν] : DecidableEq (SortedMap κ ν) := fun m n =>
  decidable_of_iff (m.entries = n.entries) ⟨ext_entries, fun h => h ▸ rfl⟩

/-- The number of entries. -/
def size (m : SortedMap κ ν) : Nat := m.entries.length

/-- Whether there is no entry. -/
def isEmpty (m : SortedMap κ ν) : Bool := m.entries.isEmpty

/-- The value of a key. -/
def get? [DecidableEq κ] (m : SortedMap κ ν) (k : κ) : Option ν :=
  (m.entries.find? fun e => e.1 = k).map Prod.snd

/-- The entries with one more; the value of a key that is there is replaced. -/
def insertEntry (k : κ) (v : ν) : List (κ × ν) → List (κ × ν)
  | [] => [(k, v)]
  | e :: rest =>
    if rank k < rank e.1 then (k, v) :: e :: rest
    else if rank e.1 < rank k then e :: insertEntry k v rest
    else (k, v) :: rest

theorem mem_insertEntry {k : κ} {v : ν} {es : List (κ × ν)} {x : κ × ν}
    (h : x ∈ insertEntry k v es) : x = (k, v) ∨ x ∈ es := by
  induction es with
  | nil => simpa [insertEntry] using h
  | cons e rest ih =>
    unfold insertEntry at h
    split at h
    · simpa using h
    · split at h
      · rcases List.mem_cons.1 h with rfl | h'
        · simp
        · rcases ih h' with rfl | h'' <;> simp_all
      · rcases List.mem_cons.1 h with rfl | h' <;> simp_all

theorem sorted_insertEntry (k : κ) (v : ν) {es : List (κ × ν)}
    (h : es.Pairwise fun a b => rank a.1 < rank b.1) :
    (insertEntry k v es).Pairwise fun a b => rank a.1 < rank b.1 := by
  induction es with
  | nil => simp [insertEntry]
  | cons e rest ih =>
    obtain ⟨he, hrest⟩ := List.pairwise_cons.1 h
    unfold insertEntry
    split
    · rename_i hlt
      refine List.pairwise_cons.2 ⟨fun x hx => ?_, h⟩
      rcases List.mem_cons.1 hx with rfl | hx'
      · exact hlt
      · exact List.lt_trans hlt (he x hx')
    · split
      · rename_i hlt
        refine List.pairwise_cons.2 ⟨fun x hx => ?_, ih hrest⟩
        rcases mem_insertEntry hx with rfl | hx'
        · exact hlt
        · exact he x hx'
      · rename_i hle hge
        have heq : rank k = rank e.1 := List.le_antisymm (List.not_lt.1 hge) (List.not_lt.1 hle)
        refine List.pairwise_cons.2 ⟨fun x hx => ?_, hrest⟩
        simpa [heq] using he x hx

/-- The map with one more entry; the value of a key that is there is replaced. -/
def insert (m : SortedMap κ ν) (k : κ) (v : ν) : SortedMap κ ν :=
  ⟨insertEntry k v m.entries, sorted_insertEntry k v m.sorted⟩

/-- The map without the entry of a key. -/
def erase [DecidableEq κ] (m : SortedMap κ ν) (k : κ) : SortedMap κ ν :=
  ⟨m.entries.filter fun e => e.1 ≠ k, m.sorted.filter _⟩

/-- Whether each key precedes the next. -/
def ascending : List (κ × ν) → Bool
  | a :: b :: rest => decide (rank a.1 < rank b.1) && ascending (b :: rest)
  | _ => true

theorem pairwise_of_ascending {es : List (κ × ν)} (h : ascending es = true) :
    es.Pairwise fun a b => rank a.1 < rank b.1 := by
  fun_induction ascending es with
  | case1 a b rest ih =>
    simp only [Bool.and_eq_true, decide_eq_true_eq] at h
    have hrest := ih h.2
    refine List.pairwise_cons.2 ⟨fun x hx => ?_, hrest⟩
    rcases List.mem_cons.1 hx with rfl | hx'
    · exact h.1
    · exact List.lt_trans h.1 ((List.pairwise_cons.1 hrest).1 x hx')
  | case2 es hne =>
    match es with
    | [] => exact .nil
    | [a] => simp
    | a :: b :: rest => exact absurd rfl (hne a b rest)

/-- The entries in the order of their keys. -/
def sortEntries (es : List (κ × ν)) : List (κ × ν) :=
  ((es.map fun e => (rank e.1, e)).mergeSort fun a b => !decide (b.1 < a.1)).map Prod.snd

/-- The map with the given entries, unless a key comes twice. -/
def ofList? (es : List (κ × ν)) : Option (SortedMap κ ν) :=
  if h : ascending (sortEntries es) = true then some ⟨sortEntries es, pairwise_of_ascending h⟩
  else none

/-- A map's entries are those it was made of. -/
theorem perm_of_ofList? {es : List (κ × ν)} {m : SortedMap κ ν} (h : ofList? es = some m) :
    m.entries.Perm es := by
  unfold ofList? at h
  split at h
  · cases h
    have hp := (List.mergeSort_perm (es.map fun e => (rank e.1, e)) fun a b => !decide (b.1 < a.1))
    simpa [sortEntries, List.map_map, Function.comp_def] using hp.map Prod.snd
  · cases h

section Lookup

variable [DecidableEq κ]

@[simp] theorem get?_empty (k : κ) : (empty : SortedMap κ ν).get? k = none := rfl

/-- An inserted key has the inserted value. -/
@[simp] theorem get?_insert_self (m : SortedMap κ ν) (k : κ) (v : ν) :
    (m.insert k v).get? k = some v := by
  obtain ⟨es, hs⟩ := m
  simp only [insert, get?]
  clear hs
  induction es with
  | nil => simp [insertEntry]
  | cons e rest ih =>
    unfold insertEntry
    split
    · simp
    · split
      · rename_i hlt
        have hne : e.1 ≠ k := fun heq => List.lt_irrefl _ (heq ▸ hlt)
        simpa [hne] using ih
      · simp

/-- The other keys have their values as before. -/
theorem get?_insert_of_ne (m : SortedMap κ ν) {k k' : κ} (v : ν) (h : k' ≠ k) :
    (m.insert k v).get? k' = m.get? k' := by
  obtain ⟨es, hs⟩ := m
  simp only [insert, get?]
  clear hs
  induction es with
  | nil => simp [insertEntry, h.symm]
  | cons e rest ih =>
    unfold insertEntry
    split
    · simp [h.symm]
    · split
      · by_cases he : e.1 = k'
        · simp [he]
        · simpa [he] using ih
      · rename_i hle hge
        have heq : k = e.1 := Ranked.rank_injective _ _
          (List.le_antisymm (List.not_lt.1 hge) (List.not_lt.1 hle))
        have hne : ¬ e.1 = k' := fun h' => h (h'.symm.trans heq.symm)
        simp [h.symm, hne]

theorem get?_insert (m : SortedMap κ ν) (k k' : κ) (v : ν) :
    (m.insert k v).get? k' = if k' = k then some v else m.get? k' := by
  split
  · next h => rw [h, get?_insert_self]
  · next h => exact get?_insert_of_ne m v h

/-- A map holds each of its keys once, so looking a key up finds its entry. -/
theorem mem_entries_iff {m : SortedMap κ ν} {k : κ} {v : ν} :
    (k, v) ∈ m.entries ↔ m.get? k = some v := by
  obtain ⟨es, hs⟩ := m
  simp only [get?]
  induction es with
  | nil => simp
  | cons e rest ih =>
    obtain ⟨he, hrest⟩ := List.pairwise_cons.1 hs
    by_cases hk : e.1 = k
    · have hnot : (k, v) ∉ rest := fun hm => List.lt_irrefl _ (hk ▸ he _ hm)
      obtain ⟨ek, ev⟩ := e
      simp only at hk
      simp [hk, hnot, eq_comm]
    · have hne : (k, v) ≠ e := fun h => hk (h ▸ rfl)
      simpa [hk, hne] using ih hrest

/-- Maps that give the same value to every key are equal. -/
theorem ext_get? {m n : SortedMap κ ν} (h : ∀ k, m.get? k = n.get? k) : m = n := by
  have nodup : ∀ s : SortedMap κ ν, s.entries.Nodup := fun s =>
    s.sorted.imp fun {a b} (hlt : rank a.1 < rank b.1) (heq : a = b) =>
      List.lt_irrefl _ (heq ▸ hlt)
  have hmem : ∀ e, e ∈ m.entries ↔ e ∈ n.entries := fun ⟨k, v⟩ => by
    rw [mem_entries_iff, mem_entries_iff, h]
  have hperm := (List.perm_ext_iff_of_nodup (nodup m) (nodup n)).2 hmem
  refine ext_entries (List.Perm.eq_of_pairwise ?_ m.sorted n.sorted hperm)
  intro a b _ _ hab hba
  exact absurd (List.lt_trans hab hba) (List.lt_irrefl _)

end Lookup

end SortedMap

end SignetFederation
