import Bass.RateLimit

/-!
# What the rate limiters answer

Both limiters count the calls of a key in a window. The table in the process forgets the windows before
the one it updates, and Redis forgets a window one window's length after its first call; neither is ever
asked about what it forgot, as long as the windows are counted in the order in which they were read.
-/

namespace Bass

/-- A call of `allow`: the key and the time. -/
abbrev RateCall : Type := String × ℚ

variable {limit : Int} {windowS : ℚ}

/-- The earlier calls of a key in a window. -/
def callsIn (windowS : ℚ) (earlier : List RateCall) (key : String) (bucket : Int) : Nat :=
  earlier.countP fun call => call.1 = key ∧ windowOf windowS call.2 = bucket

/-- The answers to a sequence of calls, each given the calls before it. -/
def fixedWindow (limit : Int) (windowS : ℚ) : List RateCall → List RateCall → List Bool
  | _, [] => []
  | earlier, (key, now) :: calls =>
      decide ((callsIn windowS earlier key (windowOf windowS now) : Int) < limit) ::
        fixedWindow limit windowS (earlier ++ [(key, now)]) calls

/-- The answers of a limiter to a sequence of calls. -/
def answers {σ : Type} (allow : σ → String → ℚ → Bool × σ) : σ → List RateCall → List Bool
  | _, [] => []
  | state, (key, now) :: calls => (allow state key now).1 :: answers allow (allow state key now).2 calls

/-- The calls are made in the order of their times. -/
def InTime (calls : List RateCall) : Prop := calls.Pairwise fun call later => call.2 ≤ later.2

theorem callsIn_append_self (earlier : List RateCall) (key : String) (now : ℚ) :
    callsIn windowS (earlier ++ [(key, now)]) key (windowOf windowS now) =
      callsIn windowS earlier key (windowOf windowS now) + 1 := by
  simp [callsIn, List.countP_append]

theorem callsIn_append_of_ne (earlier : List RateCall) {key key' : String} {now : ℚ} {bucket : Int}
    (hne : (key, windowOf windowS now) ≠ (key', bucket)) :
    callsIn windowS (earlier ++ [(key, now)]) key' bucket = callsIn windowS earlier key' bucket := by
  have hcall : ¬(key = key' ∧ windowOf windowS now = bucket) := by
    rintro ⟨rfl, rfl⟩
    exact hne rfl
  simp [callsIn, List.countP_append, hcall]

/-- A limiter that keeps track of the calls before answers like the reference. -/
theorem answers_eq_fixedWindow {σ : Type} {allow : σ → String → ℚ → Bool × σ}
    (Tracks : σ → List RateCall → Prop)
    (hallow : ∀ state earlier key now, Tracks state earlier → (∀ call ∈ earlier, call.2 ≤ now) →
      (allow state key now).1 =
          decide ((callsIn windowS earlier key (windowOf windowS now) : Int) < limit) ∧
        Tracks (allow state key now).2 (earlier ++ [(key, now)]))
    {state : σ} {earlier calls : List RateCall} (htracks : Tracks state earlier)
    (htime : InTime (earlier ++ calls)) :
    answers allow state calls = fixedWindow limit windowS earlier calls := by
  induction calls generalizing state earlier with
  | nil => rfl
  | cons call calls ih =>
      obtain ⟨key, now⟩ := call
      have hbefore : ∀ call ∈ earlier, call.2 ≤ now := fun call hmem =>
        (List.pairwise_append.mp htime).2.2 call hmem (key, now) List.mem_cons_self
      obtain ⟨hanswer, hnext⟩ := hallow state earlier key now htracks hbefore
      have hrest : InTime ((earlier ++ [(key, now)]) ++ calls) := by
        rwa [List.append_assoc, List.singleton_append]
      rw [answers, fixedWindow, hanswer, ih hnext hrest]

theorem windowOf_mono (hwindow : 0 ≤ windowS) {now later : ℚ} (h : now ≤ later) :
    windowOf windowS now ≤ windowOf windowS later := by
  apply Int.floor_le_floor
  exact div_le_div_of_nonneg_right h hwindow

/-! ### In the process -/

namespace InMemoryRateLimiter

/-- The counters that a later call may ask for count the calls before. -/
def Tracks (windowS : ℚ) (counts : Counts) (earlier : List RateCall) : Prop :=
  ∀ key bucket, (∀ call ∈ earlier, windowOf windowS call.2 ≤ bucket) →
    (counts.get? (key, bucket)).getD 0 = callsIn windowS earlier key bucket

theorem get?_count (counts : Counts) (key key' : String) (bucket bucket' : Int) :
    ((count counts key bucket).get? (key', bucket')).getD 0 =
      if (key, bucket) = (key', bucket') then (counts.get? (key, bucket)).getD 0 + 1
      else (counts.get? (key', bucket')).getD 0 := by
  unfold count
  split
  · rename_i heq
    rw [← heq, Dict.get?_set_self, Option.getD_some]
  · rename_i hne
    rw [Dict.get?_set_of_ne counts _ hne]

/-- An eviction keeps the bucket it is made for and those after it. -/
theorem get?_evict (counts : Counts) (key : String) {bucket bucket' : Int} (hkept : bucket ≤ bucket') :
    (evict counts bucket).get? (key, bucket') = counts.get? (key, bucket') := by
  unfold evict
  split
  · rw [Dict.get?_filter, if_pos (by simpa using hkept)]
  · rfl

theorem tracks_allow (hwindow : 0 ≤ windowS) {counts : Counts} {earlier : List RateCall} {key : String}
    {now : ℚ} (h : Tracks windowS counts earlier) (hbefore : ∀ call ∈ earlier, call.2 ≤ now) :
    (allow limit windowS counts key now).1 =
        decide ((callsIn windowS earlier key (windowOf windowS now) : Int) < limit) ∧
      Tracks windowS (allow limit windowS counts key now).2 (earlier ++ [(key, now)]) := by
  have hcurrent : ∀ call ∈ earlier, windowOf windowS call.2 ≤ windowOf windowS now :=
    fun call hmem => windowOf_mono hwindow (hbefore call hmem)
  constructor
  · change decide ((((count counts key (windowOf windowS now)).get? _).getD 0 : Nat) ≤ limit) = _
    rw [get?_count, if_pos rfl, h key _ hcurrent]
    apply decide_eq_decide.mpr
    push_cast
    omega
  · intro key' bucket hlater
    have hkept : windowOf windowS now ≤ bucket :=
      hlater (key, now) (List.mem_append_right _ List.mem_cons_self)
    have hstill : ∀ call ∈ earlier, windowOf windowS call.2 ≤ bucket :=
      fun call hmem => hlater call (List.mem_append_left _ hmem)
    change ((evict (count counts key (windowOf windowS now)) _).get? (key', bucket)).getD 0 = _
    rw [get?_evict _ key' hkept, get?_count]
    split
    · rename_i heq
      cases heq
      rw [h key _ hcurrent, callsIn_append_self]
    · rename_i hne
      rw [h key' bucket hstill, callsIn_append_of_ne earlier hne]

end InMemoryRateLimiter

/-! ### In Redis -/

namespace RedisRateLimiter

/-- Distinct windows of distinct keys have distinct names. -/
theorem redisKey_inj {key key' : String} {bucket bucket' : Int} :
    redisKey key bucket = redisKey key' bucket' ↔ (key, bucket) = (key', bucket') := by
  constructor
  · intro h
    have hparts : ∀ (key : String) (bucket : Int), (redisKey key bucket).toList =
        ("rl:".toList ++ key.toList) ++ ':' :: (toString bucket).toList := by
      intro key bucket
      change ("rl:" ++ key ++ ":" ++ toString bucket).toList = _
      simp only [String.toList_append, List.append_assoc]
      rfl
    have hlist := congrArg String.toList h
    rw [hparts, hparts] at hlist
    have hcolon : ∀ b : Int, ':' ∉ (toString b).toList :=
      fun b => Text.notMem_toString (by decide) (by decide)
    obtain ⟨hkey, hbucket⟩ := Text.append_cons_inj (hcolon bucket) (hcolon bucket') hlist
    have hkey' := String.toList_injective (List.append_cancel_left hkey)
    have hbucket' := Text.toString_injective (String.toList_injective hbucket)
    rw [hkey', hbucket']
  · intro h
    cases h
    rfl

/-- Every counter counts the calls of its window, and goes one window's length after one of them. -/
def Tracks (windowS : Nat) (redis : Redis) (earlier : List RateCall) : Prop :=
  ∀ key bucket,
    match redis.get? (redisKey key bucket) with
    | none => callsIn windowS earlier key bucket = 0
    | some (count, expiry) => count = callsIn windowS earlier key bucket ∧ 0 < count ∧
        ∃ first, windowOf windowS first = bucket ∧ expiry = some (first + windowS)

/-- A window is over one window's length after any moment of it. -/
theorem le_of_sameWindow (hwindow : 0 < windowS) {first now : ℚ}
    (h : windowOf windowS first = windowOf windowS now) : now ≤ first + windowS := by
  have hlow : (windowOf windowS now : ℚ) ≤ first / windowS := by
    rw [← h]
    exact Int.floor_le _
  have hhigh : now / windowS < windowOf windowS now + 1 := Int.lt_floor_add_one _
  have hlow' := (le_div_iff₀ hwindow).mp hlow
  have hhigh' := (div_lt_iff₀ hwindow).mp hhigh
  linarith

variable {window : Nat}

/-- While its window lasts, a counter is there. -/
theorem live_of_tracks (hwindow : 0 < window) {redis : Redis} {earlier : List RateCall}
    (h : Tracks window redis earlier) (key : String) (now : ℚ) :
    redis.live now (redisKey key (windowOf window now)) =
      redis.get? (redisKey key (windowOf window now)) := by
  have htracked := h key (windowOf window now)
  unfold Redis.live
  cases hget : redis.get? (redisKey key (windowOf window now)) with
  | none => rfl
  | some entry =>
      obtain ⟨count, expiry⟩ := entry
      rw [hget] at htracked
      obtain ⟨-, -, first, hfirst, rfl⟩ := htracked
      have hle : now ≤ first + window := le_of_sameWindow (by exact_mod_cast hwindow) hfirst
      simp [Option.filter, hle]

/-- The first call of a window sets the time to live, the later ones keep it. -/
theorem get?_allow (hwindow : 0 < window) {redis : Redis} {earlier : List RateCall}
    (h : Tracks window redis earlier) (key : String) (now : ℚ) :
    ∃ first, windowOf window first = windowOf window now ∧
      (allow limit window redis key now).1 =
        decide ((callsIn window earlier key (windowOf window now) + 1 : Nat) ≤ limit) ∧
      (allow limit window redis key now).2.get? (redisKey key (windowOf window now)) =
        some (callsIn window earlier key (windowOf window now) + 1, some (first + window)) ∧
      ∀ name, redisKey key (windowOf window now) ≠ name →
        (allow limit window redis key now).2.get? name = redis.get? name := by
  have htracked := h key (windowOf window now)
  have hlive := live_of_tracks hwindow h key now
  cases hget : redis.get? (redisKey key (windowOf window now)) with
  | none =>
      rw [hget] at htracked hlive
      have hcreated : Redis.expire (Dict.set redis (redisKey key (windowOf window now)) (1, none)) now
            (redisKey key (windowOf window now)) window =
          Dict.set (Dict.set redis (redisKey key (windowOf window now)) (1, none))
            (redisKey key (windowOf window now)) (1, some (now + window)) := by
        simp [Redis.expire, Redis.live, Dict.get?_set_self, Option.filter]
      have hallow : allow limit window redis key now = (decide ((1 : Nat) ≤ limit),
          Dict.set (Dict.set redis (redisKey key (windowOf window now)) (1, none))
            (redisKey key (windowOf window now)) (1, some (now + window))) := by
        simp [allow, Redis.incr, hlive, hcreated]
      rw [hallow, htracked]
      refine ⟨now, rfl, rfl, Dict.get?_set_self _ _ _, fun name hne => ?_⟩
      rw [Dict.get?_set_of_ne _ _ hne, Dict.get?_set_of_ne _ _ hne]
  | some entry =>
      obtain ⟨count, expiry⟩ := entry
      rw [hget] at htracked hlive
      obtain ⟨hcount, hpos, first, hfirst, rfl⟩ := htracked
      have hallow : allow limit window redis key now = (decide ((count + 1 : Nat) ≤ limit),
          Dict.set redis (redisKey key (windowOf window now)) (count + 1, some (first + window))) := by
        have hne : count ≠ 0 := by omega
        simp [allow, Redis.incr, hlive, hne]
      rw [hallow, ← hcount]
      exact ⟨first, hfirst, rfl, Dict.get?_set_self _ _ _, fun name hne => Dict.get?_set_of_ne _ _ hne⟩

theorem tracks_allow (hwindow : 0 < window) {redis : Redis} {earlier : List RateCall} {key : String}
    {now : ℚ} (h : Tracks window redis earlier) :
    (allow limit window redis key now).1 =
        decide ((callsIn window earlier key (windowOf window now) : Int) < limit) ∧
      Tracks window (allow limit window redis key now).2 (earlier ++ [(key, now)]) := by
  obtain ⟨first, hfirst, hanswer, hself, hothers⟩ := get?_allow hwindow h key now
  constructor
  · rw [hanswer]
    apply decide_eq_decide.mpr
    push_cast
    omega
  · intro key' bucket
    by_cases heq : (key, windowOf window now) = (key', bucket)
    · cases heq
      rw [hself, callsIn_append_self]
      exact ⟨rfl, Nat.succ_pos _, first, hfirst, rfl⟩
    · rw [hothers _ fun hname => heq (redisKey_inj.mp hname), callsIn_append_of_ne earlier heq]
      exact h key' bucket

end RedisRateLimiter

/-- **Fixed windows.** Over any calls made in the order of their times, both limiters allow a call
exactly when fewer than `limit` calls of its key fell in its window before. -/
theorem limiters_agree (limit : Int) {window : Nat} (hwindow : 0 < window) {calls : List RateCall}
    (htime : InTime calls) :
    answers (InMemoryRateLimiter.allow limit window) Table.empty calls = fixedWindow limit window [] calls ∧
      answers (RedisRateLimiter.allow limit window) Table.empty calls =
        fixedWindow limit window [] calls := by
  have hnonneg : (0 : ℚ) ≤ window := Nat.cast_nonneg window
  constructor
  · apply answers_eq_fixedWindow (InMemoryRateLimiter.Tracks window)
    · intro counts earlier key now htracks hbefore
      exact InMemoryRateLimiter.tracks_allow hnonneg htracks hbefore
    · intro key bucket _
      rfl
    · exact htime
  · apply answers_eq_fixedWindow (RedisRateLimiter.Tracks window)
    · intro redis earlier key now htracks _
      exact RedisRateLimiter.tracks_allow hwindow htracks
    · intro key bucket
      rfl
    · exact htime

/-- A window with room for one call, crossed twice. -/
theorem limiters_agree_crossing :
    answers (InMemoryRateLimiter.allow 1 (60 : Nat)) Table.empty [("a", 0), ("a", 59), ("b", 60), ("a", 61)] =
        fixedWindow 1 (60 : Nat) [] [("a", 0), ("a", 59), ("b", 60), ("a", 61)] ∧
      answers (RedisRateLimiter.allow 1 60) Table.empty [("a", 0), ("a", 59), ("b", 60), ("a", 61)] =
        fixedWindow 1 (60 : Nat) [] [("a", 0), ("a", 59), ("b", 60), ("a", 61)] :=
  limiters_agree 1 (by decide) (by
    simp only [InTime, List.pairwise_cons, List.mem_cons, List.not_mem_nil]
    norm_num)

end Bass
