import Bass.Data.Table
import Bass.Data.Text
import Mathlib.Algebra.Order.Floor.Ring
import Mathlib.Data.Rat.Floor

/-!
# Rate limiting

`ratelimit.py`: fixed windows, counted in the process or in Redis. Clock readings are exact numbers of
seconds.
-/

namespace Bass

/-- `int(self._clock() // self.window_s)`. -/
def windowOf (windowS now : ℚ) : Int := ⌊now / windowS⌋

namespace InMemoryRateLimiter

/-- `self._counts`, by key and bucket. -/
abbrev Counts : Type := Dict (String × Int) Nat

/-- `self._counts[(key, bucket)] += 1`. -/
def count (counts : Counts) (key : String) (bucket : Int) : Counts :=
  Dict.set counts (key, bucket) ((counts.get? (key, bucket)).getD 0 + 1)

/-- Drop the buckets before this one if the table has grown. -/
def evict (counts : Counts) (bucket : Int) : Counts :=
  if counts.rows.length > 4096 then counts.filter fun k => bucket ≤ k.2 else counts

/-- What `allow` does under the lock. -/
def update (limit : Int) (counts : Counts) (key : String) (bucket : Int) : Bool × Counts :=
  let counts := count counts key bucket
  ((counts.get? (key, bucket)).getD 0 ≤ limit, evict counts bucket)

def allow (limit : Int) (windowS : ℚ) (counts : Counts) (key : String) (now : ℚ) : Bool × Counts :=
  update limit counts key (windowOf windowS now)

end InMemoryRateLimiter

/-- The counters of a Redis server, each with the time after which it is gone. -/
abbrev Redis : Type := Dict String (Nat × Option ℚ)

namespace Redis

/-- A counter whose time has passed is absent. -/
def live (redis : Redis) (now : ℚ) (key : String) : Option (Nat × Option ℚ) :=
  (redis.get? key).filter fun entry => entry.2.all (now ≤ ·)

/-- `INCR`: an absent counter starts from zero, and a time to live stays as it is. -/
def incr (redis : Redis) (now : ℚ) (key : String) : Nat × Redis :=
  match redis.live now key with
  | none => (1, Dict.set redis key (1, none))
  | some (count, expiry) => (count + 1, Dict.set redis key (count + 1, expiry))

/-- `EXPIRE`: only a counter that is there gets a time to live. -/
def expire (redis : Redis) (now : ℚ) (key : String) (seconds : Nat) : Redis :=
  match redis.live now key with
  | none => redis
  | some (count, _) => Dict.set redis key (count, some (now + seconds))

end Redis

namespace RedisRateLimiter

def redisKey (key : String) (bucket : Int) : String := s!"rl:{key}:{bucket}"

def allow (limit : Int) (windowS : Nat) (redis : Redis) (key : String) (now : ℚ) : Bool × Redis :=
  let bucket := windowOf windowS now
  let (count, redis) := redis.incr now (redisKey key bucket)
  let redis := if count = 1 then redis.expire now (redisKey key bucket) windowS else redis
  (count ≤ limit, redis)

end RedisRateLimiter

end Bass
