import Mathlib.Data.Rat.Defs
import Mathlib.Algebra.Order.Ring.Unbundled.Rat
import McpWebSearch.Lib.Meter

/-!
# `Ratelimit` — the token bucket (`src/ratelimit.rs`)

Amounts and instants are rationals: seconds since some origin, tokens, tokens per second. The mutex makes
every call of `try_acquire` one step.
-/

namespace McpWebSearch

structure TokenBucket where
  tokens : Rat
  lastRefill : Rat
  rate : Rat
  capacity : Rat
  deriving DecidableEq

namespace TokenBucket

/-- `TokenBucket::new`, at instant `now`. -/
def new (now rate : Rat) : TokenBucket :=
  let cap := max rate 1
  { tokens := cap, lastRefill := now, rate := rate, capacity := cap }

/-- `try_acquire`, at instant `now`; `duration_since` of a later instant is zero. -/
def tryAcquire (b : TokenBucket) (now : Rat) : Bool × TokenBucket :=
  if b.rate = 0 then (true, b)
  else
    let elapsed := max (now - b.lastRefill) 0
    let tokens := min (b.tokens + elapsed * b.rate) b.capacity
    if 1 ≤ tokens then (true, { b with tokens := tokens - 1, lastRefill := now })
    else (false, { b with tokens := tokens, lastRefill := now })

/-- One call of `try_acquire`: the task that makes it and the instant it reads under the lock. -/
structure Call where
  caller : Nat
  now : Rat

/-- The bucket as a meter. The lock puts the calls of all tasks in one order, and the clock never goes
    back. -/
def calls : Meter TokenBucket Call Rat where
  next b c := if b.lastRefill ≤ c.now then some (b.tryAcquire c.now).2 else none
  time c := c.now
  admits b c := (b.tryAcquire c.now).1

end TokenBucket
end McpWebSearch
