/-
# The rate limiter's backends

`crates/http_support/src/rate_limit.rs`: `MemoryRateLimiter::check`, and
`RedisSlidingWindowRateLimiter::check` with its Lua script over sorted sets.

An `Instant` and a `Duration` are whole nanoseconds; Redis is given milliseconds.  The
script runs on exact numbers, and Redis and the application read one clock.
-/

import Mathlib.Algebra.Ring.Nat
import Mathlib.Order.Basic
import Mathlib.Data.Int.Notation
import Std.Data.TreeMap

namespace Hegira
namespace HttpSupport

open Std (TreeMap)

def second : ℕ := 1000000000
def millisecond : ℕ := 1000000

structure RateLimitDecision where
  allowed : Bool
  limit : ℕ
  remaining : ℕ
  resetSeconds : ℕ
  retryAfterSeconds : Option ℕ
  deriving DecidableEq, Repr

/-- A call of `check`: the key and what the clock shows. -/
structure Call where
  key : String
  now : ℕ
  deriving DecidableEq, Repr

/-- The calls with their decisions, and the state they leave. -/
def replay {σ ι δ : Type*} (step : σ → ι → δ × σ) (s : σ) (calls : List ι) : List (ι × δ) × σ :=
  calls.foldl (fun (history, s) call =>
    let (decision, s) := step s call
    (history ++ [(call, decision)], s)) ([], s)

/-! ### Memory -/

/-- The order of the entries of the `HashMap` plays no part. -/
structure MemoryRateLimiter where
  clients : TreeMap String (List ℕ) := {}

/-- `timestamps.retain(|timestamp| now.duration_since(*timestamp) < window)`;
`duration_since` saturates at zero. -/
def retain (now window : ℕ) (timestamps : List ℕ) : List ℕ :=
  timestamps.filter fun timestamp => now - timestamp < window

/-- `MemoryRateLimiter::check`. -/
def MemoryRateLimiter.check (maxRequests window : ℕ) (limiter : MemoryRateLimiter) (call : Call) :
    RateLimitDecision × MemoryRateLimiter :=
  let now := call.now
  let clients := limiter.clients.filterMap fun _ timestamps =>
    if (retain now window timestamps).isEmpty then none else some (retain now window timestamps)
  let timestamps := retain now window (clients.getD call.key [])
  if maxRequests ≤ timestamps.length then
    let retryAfterSeconds := match timestamps.head? with
      | some oldest => max ((window - (now - oldest)) / second) 1
      | none => max (window / second) 1
    ({ allowed := false
       limit := maxRequests
       remaining := 0
       resetSeconds := retryAfterSeconds
       retryAfterSeconds := some retryAfterSeconds },
      { clients := clients.insert call.key timestamps })
  else
    ({ allowed := true
       limit := maxRequests
       remaining := maxRequests - (timestamps ++ [now]).length
       resetSeconds := max (window / second) 1
       retryAfterSeconds := none },
      { clients := clients.insert call.key (timestamps ++ [now]) })

/-! ### Redis -/

/-- A sorted set: its members with their scores, in the order they were added. -/
structure SortedSet where
  members : List (String × ℤ)
  /-- When the key is deleted, in milliseconds. -/
  expiresAt : Option ℤ
  deriving DecidableEq, Repr

structure Redis where
  keys : TreeMap String SortedSet := {}

/-- What a command that runs at `time` finds under a key. -/
def Redis.find (redis : Redis) (time : ℤ) (key : String) : Option SortedSet :=
  (redis.keys[key]?).filter fun set => set.expiresAt.all (time ≤ ·)

/-- A sorted set without members is no key. -/
def Redis.put (redis : Redis) (key : String) (set : SortedSet) : Redis :=
  if set.members.isEmpty then ⟨redis.keys.erase key⟩ else ⟨redis.keys.insert key set⟩

/-- `ZREMRANGEBYSCORE`. -/
def SortedSet.zremrangebyscore (low high : ℤ) (set : SortedSet) : SortedSet :=
  { set with members := set.members.filter fun (_, score) => ¬(low ≤ score ∧ score ≤ high) }

/-- The score of `ZRANGE key 0 0 WITHSCORES`. -/
def SortedSet.firstScore (set : SortedSet) : Option ℤ := (set.members.map Prod.snd).min?

/-- `ZADD`. -/
def SortedSet.zadd (score : ℤ) (member : String) (set : SortedSet) : SortedSet :=
  { set with members := set.members.filter (fun (name, _) => name ≠ member) ++ [(member, score)] }

/-- `EXPIRE`. -/
def SortedSet.expire (time seconds : ℤ) (set : SortedSet) : SortedSet :=
  { set with expiresAt := some (time + seconds * 1000) }

/-- `math.ceil(value / 1000)`. -/
def ceilSeconds (value : ℤ) : ℤ := -(-value / 1000)

/-- `SLIDING_WINDOW_LUA`.  Without a member the first score is `nil`, on which the
script cannot calculate. -/
def slidingWindowLua (redis : Redis) (key : String) (now window maxRequests : ℤ)
    (member : String) : Except String (List ℤ) × Redis :=
  let set := ((redis.find now key).getD ⟨[], none⟩).zremrangebyscore 0 (now - window)
  let count : ℤ := set.members.length
  if maxRequests ≤ count then
    match set.firstScore with
    | some oldest =>
        (.ok [0, count, ceilSeconds (oldest + window - now)], redis.put key set)
    | none => (.error "attempt to perform arithmetic on a nil value", redis.put key set)
  else
    (.ok [1, count + 1, 0],
      redis.put key ((set.zadd now member).expire now (ceilSeconds window + 1)))

/-- What `RedisSlidingWindowRateLimiter::check` makes of the values of the script. -/
def scriptDecision (maxRequests window : ℕ) (values : List ℤ) : RateLimitDecision :=
  let allowed := values.head?.getD 0 == 1
  let count := (max ((values[1]?).getD 0) 0).toNat
  let retryAfterSeconds := (max ((values[2]?).getD 0) 0).toNat
  { allowed
    limit := maxRequests
    remaining := maxRequests - count
    resetSeconds := if retryAfterSeconds = 0 then max (window / second) 1 else retryAfterSeconds
    retryAfterSeconds := if allowed then none else some (max retryAfterSeconds 1) }

/-- The script with these arguments, and what `check` makes of its values. -/
def RedisSlidingWindowRateLimiter.query (maxRequests window : ℕ) (windowMs limit : ℤ)
    (redis : Redis) (call : Call × String) : Except String RateLimitDecision × Redis :=
  let (values, redis) := slidingWindowLua redis call.1.key call.1.now windowMs limit call.2
  (values.map (scriptDecision maxRequests window), redis)

/-- `value as i64` of an unsigned number. -/
def asI64 (value : ℕ) : ℤ := (value : ℤ).bmod (2 ^ 64)

/-- `RedisSlidingWindowRateLimiter::check` with the member it drew; the clock shows
milliseconds. -/
def RedisSlidingWindowRateLimiter.check (maxRequests window : ℕ) :
    Redis → Call × String → Except String RateLimitDecision × Redis :=
  query maxRequests window (asI64 (window / millisecond)) (asI64 maxRequests)

/-- The script with this limit and a window of whole milliseconds. -/
def RedisSlidingWindowRateLimiter.eval (maxRequests window : ℕ) :
    Redis → Call × String → Except String RateLimitDecision × Redis :=
  query maxRequests (window * millisecond) window maxRequests

end HttpSupport
end Hegira
