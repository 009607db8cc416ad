import Mathlib.Data.Int.Order.Basic

/-!
# Instants and code outside the repository

An instant is a signed count of nanoseconds since the Unix epoch, which is what
the wall-clock type of the source stores.  Three functions the federation layer
calls live in other crates; the model takes them as parameters, so that every
result holds for whatever they compute.
-/

namespace CirisPersist

abbrev Instant :=
  Int

namespace Instant

def ofSeconds (s : Int) : Instant :=
  s * 1000000000

end Instant

abbrev InstantInterval :=
  Instant × Option Instant

def InstantInterval.holdsAt (t : Instant) (interval : InstantInterval) : Bool :=
  decide (interval.1 ≤ t) && interval.2.all fun e => decide (t < e)

/-- What the model takes from other crates: the reader of RFC 3339 timestamps,
the strict majority of the signature crate, and the first and last instants the
date type can hold. -/
class External where
  parseRfc3339 : String -> Option Instant
  strictMajority : Nat -> Nat
  minUtc : Instant
  maxUtc : Instant

/-- The reader of date text behind `str::parse::<DateTime<Utc>>`, which takes more
forms than RFC 3339. -/
class DateReader where
  parseDateTime : String -> Option Instant

/-!
## A reference instance

Concrete runs of the model fix the parameters: the strict majority of the
signature crate is `n / 2 + 1`, and the date type runs from the year -262143 to
the year 262142.
The instance reads no RFC 3339 text and one date text, so it serves runs whose
envelopes carry no others.
-/

namespace Reference

scoped instance external : External where
  parseRfc3339 := fun _ => none
  strictMajority := fun n => n / 2 + 1
  minUtc := -8334601228800000000000
  maxUtc := 8210266876799999999999

scoped instance dateReader : DateReader where
  parseDateTime := fun s =>
    if s = "1970-01-02T00:00:00.000Z" then some (Instant.ofSeconds 86400) else none

end Reference

end CirisPersist
