import ReticulumProtocols.Lxmf.Tickets

/-! The session's rate limiter: a token bucket for each source, in a table of bounded size. Times and
durations are in nanoseconds. -/

namespace ReticulumProtocols.Lxmf
open Wire

def rateLimitMaxBuckets : Nat := 4096

structure RateBucket where
  tokens : Float
  last : Int

structure RateLimiter where
  interval : Int
  burst : Int
  buckets : GoMap Bytes RateBucket := ∅

/-- `rateHashKey`: the hash in an array of sixteen bytes. -/
def rateHashKey (hash : Bytes) : Bytes := (hash ++ List.replicate 16 0).take 16

/-- `Duration.Seconds`: whole seconds plus the rest. -/
def durationSeconds (d : Int) : Float :=
  Float64.ofInt (d.tdiv 1000000000) + Float64.ofInt (d.tmod 1000000000) / Float64.ofInt 1000000000

namespace RateLimiter

def full (r : RateLimiter) : Bool := decide (r.buckets.entries.length ≥ rateLimitMaxBuckets)

/-- `pruneLocked`: stale buckets go, and if that is not enough, the first half that `visit` meets. -/
def pruneLocked (r : RateLimiter) (now : Int) (visit : Visit) : RateLimiter :=
  let stale := max (r.interval * 2) 60000000000
  let fresh := eraseWhere (fun bucket => now - bucket.last > stale) r.buckets
  if fresh.entries.length < rateLimitMaxBuckets then { r with buckets := fresh }
  else
    let first := (visit.run fresh.keys).take (rateLimitMaxBuckets / 2)
    { r with buckets := first.foldl (fun buckets key => buckets.erase key) fresh }

/-- The refill and the withdrawal of `Allow`. -/
def withdraw (r : RateLimiter) (key : Bytes) (bucket : RateBucket) (now : Int) : RateLimiter × Bool :=
  let tokens := bucket.tokens + durationSeconds (now - bucket.last) / durationSeconds r.interval
  let tokens := if tokens > Float64.ofInt r.burst then Float64.ofInt r.burst else tokens
  if tokens < Float64.ofInt 1 then ({ r with buckets := r.buckets.insert key ⟨tokens, now⟩ }, false)
  else ({ r with buckets := r.buckets.insert key ⟨tokens - Float64.ofInt 1, now⟩ }, true)

/-- `Allow`; each of its two prunings has a map order of its own. -/
def allow (r : RateLimiter) (hash : Bytes) (now : Int) (first second : Visit) : RateLimiter × Bool :=
  let r := if r.full then r.pruneLocked now first else r
  match r.buckets.lookup (rateHashKey hash) with
  | some bucket => r.withdraw (rateHashKey hash) bucket now
  | none =>
    let r := if r.full then r.pruneLocked now second else r
    if r.full then (r, false) else r.withdraw (rateHashKey hash) ⟨Float64.ofInt r.burst, now⟩ now

end RateLimiter

end ReticulumProtocols.Lxmf
