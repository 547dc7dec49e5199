/-!
# Spans of time

A span has whole seconds and nanoseconds below one second. It is shown in the largest of the units
s, ms, µs and ns that it reaches, with as many decimals as it needs. A moment some time from now is
only told by a clock whose range it is in.

`crates/quorum-core/src`:

| here | there |
| --- | --- |
| `Timespan.text` | the duration in `Error::CollectionTimeout` (`error.rs:49-50`) |
| `Uptime.after?` | `Instant::now() + timeout` (`sign/round.rs:188`) |
-/

namespace SignetFederation

/-- A span of time. -/
structure Timespan where
  seconds : Nat
  nanos : Nat
  nanos_lt : nanos < 1000000000
  deriving DecidableEq

namespace Timespan

/-- The span of a number of nanoseconds. -/
def ofNanos (n : Nat) : Timespan :=
  ⟨n / 1000000000, n % 1000000000, Nat.mod_lt _ (by decide)⟩

/-- The span of a number of milliseconds. -/
def ofMillis (n : Nat) : Timespan := ofNanos (n * 1000000)

/-- The span of a number of seconds. -/
def ofSeconds (n : Nat) : Timespan := ⟨n, 0, by decide⟩

/-- The length in nanoseconds. -/
def toNanos (t : Timespan) : Nat := t.seconds * 1000000000 + t.nanos

/-- The length in whole milliseconds. -/
def toMillis (t : Timespan) : Nat := t.toNanos / 1000000

/-- Some decimals without the zeros at their end, behind a point if any are left. -/
def decimals (places fraction : Nat) : String :=
  let digits := Nat.toDigits 10 fraction
  let padded := List.replicate (places - digits.length) '0' ++ digits
  match (padded.reverse.dropWhile (· == '0')).reverse with
  | [] => ""
  | kept => String.ofList ('.' :: kept)

/-- The span in its largest unit. -/
def text (t : Timespan) : String :=
  if t.seconds > 0 then toString t.seconds ++ decimals 9 t.nanos ++ "s"
  else if t.nanos ≥ 1000000 then
    toString (t.nanos / 1000000) ++ decimals 6 (t.nanos % 1000000) ++ "ms"
  else if t.nanos ≥ 1000 then toString (t.nanos / 1000) ++ decimals 3 (t.nanos % 1000) ++ "µs"
  else toString t.nanos ++ "ns"

end Timespan

/-- A moment that is out of a clock's range; to ask for it ends the program. -/
structure ClockOverflow where
  deriving DecidableEq

/-- A reading of the clock that deadlines are set by, in nanoseconds. It only goes forward. -/
abbrev Uptime := Int

namespace Uptime

/-- The last reading: the clock counts its seconds in 63 bits. -/
def latest : Uptime := 9223372036854775807999999999

/-- The reading some time after another, if there is one. -/
def after? (now : Uptime) (span : Timespan) : Option Uptime :=
  let later := now + span.toNanos
  if later ≤ latest then some later else none

theorem after?_eq_none_iff {now : Uptime} {span : Timespan} :
    now.after? span = none ↔ latest < now + span.toNanos := by
  simp [after?]

theorem after?_eq_some_iff {now later : Uptime} {span : Timespan} :
    now.after? span = some later ↔ later ≤ latest ∧ now + span.toNanos = later := by
  simp only [after?, Option.ite_none_right_eq_some, Option.some.injEq]
  constructor
  · rintro ⟨hle, rfl⟩
    exact ⟨hle, rfl⟩
  · rintro ⟨hle, rfl⟩
    exact ⟨hle, rfl⟩

end Uptime

end SignetFederation
