import VectorQuery.Number.Arithmetic

/-!
# Instants

A point in time, kept as a whole number of nanoseconds since the beginning of
the year 1900, without leap seconds.  The range is 32768 centuries to either
side; what lies beyond is moved to its end.

From whole seconds or milliseconds an instant is exact.  The way to and from
binary64 goes through several rounded steps, the order of which is part of the
definitions below: a millisecond count that was read is in general not the one
that is written.
-/

namespace VectorQuery

namespace Nanoseconds

/-- The nanoseconds of a second. -/
def perSecond : Int := 1000000000

/-- The nanoseconds of a millisecond. -/
def perMillisecond : Int := 1000000

/-- The nanoseconds of a century of 36525 days. -/
def perCentury : Int := 3155760000000000000

-- The ends stay folded, so that no search for cases goes through numbers of their size.
@[irreducible] def min : Int := -32768 * perCentury

@[irreducible] def max : Int := 32768 * perCentury

end Nanoseconds

/-- A whole number of nanoseconds within 32768 centuries. -/
@[ext] structure Nanoseconds where
  count : Int
  min_le : Nanoseconds.min ≤ count
  le_max : count ≤ Nanoseconds.max
deriving DecidableEq, Repr

namespace Nanoseconds

theorem min_le_max : min ≤ max := by
  unfold min max
  decide

/-- The beginning of the range. -/
def first : Nanoseconds := ⟨min, Int.le_refl min, min_le_max⟩

/-- The end of the range. -/
def last : Nanoseconds := ⟨max, min_le_max, Int.le_refl max⟩

/-- The nearest number of nanoseconds within the range. -/
def clamp (n : Int) : Nanoseconds :=
  if h : min ≤ n then
    if h' : n ≤ max then ⟨n, h, h'⟩ else last
  else first

/-- Centuries, rounded down, and the nanoseconds beyond them.  The end of the
range counts as a full century after the last one. -/
def centuries (n : Nanoseconds) : Int × Int :=
  if n.count = max then (32767, perCentury)
  else (n.count / perCentury, n.count % perCentury)

/-- The number of seconds: centuries, whole seconds and the fraction are
rounded one by one and added in that order. -/
def toSeconds (n : Nanoseconds) : Float :=
  let (centuries, rest) := n.centuries
  let whole := Float.ofInt (rest / perSecond)
  let fraction := Float.ofInt (rest % perSecond) * 1e-9
  if centuries = 0 then whole + fraction
  else Float.ofInt centuries * 3155760000.0 + whole + fraction

/-- The number of milliseconds, a thousand times that of seconds. -/
def toMilliseconds (n : Nanoseconds) : Float :=
  n.toSeconds * 1000.0

/-- The whole nanoseconds in a number of milliseconds, towards zero. -/
def ofMilliseconds (x : Float) : Nanoseconds :=
  let bound := Float.ofBits 0x7fefffffffffffff / 1e6
  if bound ≤ x then last
  else if x ≤ -bound then first
  else clamp (Number.truncate (x * 1e6))

end Nanoseconds

/-- A point in time, by the nanoseconds since the beginning of 1900. -/
@[ext] structure Instant where
  sinceReference : Nanoseconds
deriving DecidableEq, Repr

namespace Instant

/-- The nanoseconds from the beginning of 1900 to that of 1970, from where unix
times are counted. -/
def unixEpoch : Int := 2208988800 * Nanoseconds.perSecond

/-- The instant at a number of nanoseconds after the beginning of 1970. -/
def ofUnix (n : Nanoseconds) : Instant :=
  ⟨.clamp (unixEpoch + n.count)⟩

/-- The nanoseconds since the beginning of 1970. -/
def sinceUnix (t : Instant) : Nanoseconds :=
  .clamp (t.sinceReference.count - unixEpoch)

def ofUnixMilliseconds (n : Int) : Instant :=
  ofUnix (.clamp (n * Nanoseconds.perMillisecond))

def ofUnixSeconds (n : Int) : Instant :=
  ofUnix (.clamp (n * Nanoseconds.perSecond))

/-- The instant that a binary64 number of milliseconds after the beginning of
1970 stands for. -/
def ofUnixMillisecondsFloat (x : Float) : Instant :=
  ofUnix (.ofMilliseconds x)

def toUnixSeconds (t : Instant) : Float := t.sinceUnix.toSeconds

def toUnixMilliseconds (t : Instant) : Float := t.sinceUnix.toMilliseconds

end Instant

end VectorQuery
