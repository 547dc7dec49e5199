import SignetFederation.Timespan
import Std.Data.HashSet

/-!
# Windows of recently seen keys

A window remembers the keys seen last. It holds a limited number of them, and each only for a
limited time if there is a time to live. A key that it holds is not taken a second time.

`crates/psbt-relay/src/window.rs`:

| here | there |
| --- | --- |
| `SeenWindow` | `SeenWindow` (`window.rs:10-15`) |
| `SeenWindow.empty` | `SeenWindow::new` (`window.rs:19-26`) |
| `SeenWindow.insertAt` | `SeenWindow::insert_at` (`window.rs:33-46`) |
| `SeenWindow.evict` | its loop over the oldest keys (`window.rs:38-42`) |
| `SeenWindow.contains` | `SeenWindow::contains` (`window.rs:48-50`) |
| `SeenWindow.expire` | `SeenWindow::expire` (`window.rs:57-68`) |
| `Instant.after?` | the sum in `expire` (`window.rs:62`) |
| `SeenWindow.size` | `SeenWindow::len` (`window.rs:70-72`) |
-/

namespace SignetFederation

/-- A moment, in nanoseconds since the beginning of 1970. -/
abbrev Instant := Int

namespace Instant

/-- The first moment of the calendar: the beginning of the year -262143. -/
def earliest : Instant := -8334601228800000000000

/-- The last moment of the calendar: the end of the year 262142. -/
def latest : Instant := 8210266876799999999999

/-- The moment some time after another, if the calendar reaches it. -/
def after? (i : Instant) (span : Int) : Option Instant :=
  let later := i + span
  if earliest ≤ later ∧ later ≤ latest then some later else none

end Instant

/-- The keys seen last, the oldest first, with the moments at which they were seen; and the same
keys as a set. The time to live is in nanoseconds. -/
structure SeenWindow (κ : Type) [BEq κ] [Hashable κ] where
  capacity : Nat
  ttl : Option Int
  order : List (κ × Instant)
  seen : Std.HashSet κ

namespace SeenWindow

variable {κ : Type} [BEq κ] [Hashable κ]

/-- An empty window for some number of keys, at least one. -/
def empty (capacity : Nat) (ttl : Option Int) : SeenWindow κ := ⟨max capacity 1, ttl, [], ∅⟩

/-- The number of keys. -/
def size (w : SeenWindow κ) : Nat := w.order.length

/-- Whether a key is in the window. -/
def contains (w : SeenWindow κ) (k : κ) : Bool := w.seen.contains k

/-- Drops keys from the front of the order while their time is over. -/
def expireFront (ttl : Int) (now : Instant) :
    List (κ × Instant) → Std.HashSet κ → Except ClockOverflow (List (κ × Instant) × Std.HashSet κ)
  | [], seen => .ok ([], seen)
  | (k, at_) :: rest, seen =>
    match Instant.after? at_ ttl with
    | none => .error ⟨⟩
    | some limit =>
      if now < limit then .ok ((k, at_) :: rest, seen)
      else expireFront ttl now rest (seen.erase k)

/-- The window without the keys at the front whose time is over. -/
def expire (w : SeenWindow κ) (now : Instant) : Except ClockOverflow (SeenWindow κ) :=
  match w.ttl with
  | none => .ok w
  | some ttl => do
    let (order, seen) ← expireFront ttl now w.order w.seen
    return { w with order, seen }

/-- Drops some keys from the front of the order. -/
def evict : (n : Nat) → List (κ × Instant) → Std.HashSet κ → List (κ × Instant) × Std.HashSet κ
  | n + 1, (k, _) :: rest, seen => evict n rest (seen.erase k)
  | _, order, seen => (order, seen)

/-- Takes a key at a moment, and tells whether it was new. The oldest keys make room for it. -/
def insertAt (w : SeenWindow κ) (k : κ) (now : Instant) :
    Except ClockOverflow (SeenWindow κ × Bool) := do
  let w ← w.expire now
  if w.contains k then return (w, false)
  let (order, seen) := evict (w.order.length + 1 - w.capacity) w.order w.seen
  return ({ w with order := order ++ [(k, now)], seen := seen.insert k }, true)

end SeenWindow

end SignetFederation
