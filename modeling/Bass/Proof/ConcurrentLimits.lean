import Bass.Proof.RateLimits

/-!
# Rate limiting by concurrent callers

The bucket of a call is computed before the lock is taken. A call may so count in a window that others
have left behind, and even evicted: then the counter of that window starts again. While no call is
overtaken by an eviction, the limit of every window is kept.
-/

namespace Bass

open InMemoryRateLimiter

/-- The limiter and its callers: the calls that have read the clock and not been counted yet, and the
answers given. -/
structure Limiter where
  counts : Counts
  clock : ℚ
  pending : List (String × Int)
  answered : List (String × Int × Bool)

/-- The two steps of a call of `allow`. -/
inductive Limiter.Move where
  | read (key : String) (now : ℚ)
  | update (key : String) (bucket : Int)

namespace Limiter

def start (clock : ℚ) : Limiter := ⟨Table.empty, clock, [], []⟩

variable (limit : Nat) (windowS : ℚ)

def step (l : Limiter) : Move → Option Limiter
  | .read key now =>
      if l.clock ≤ now then
        some { l with clock := now, pending := l.pending ++ [(key, windowOf windowS now)] }
      else none
  | .update key bucket =>
      if (key, bucket) ∈ l.pending then
        let out := InMemoryRateLimiter.update limit l.counts key bucket
        some { l with
          counts := out.2
          pending := l.pending.erase (key, bucket)
          answered := l.answered ++ [(key, bucket, out.1)] }
      else none

/-- The steps of any number of callers, in any order. -/
def run : Limiter → List Move → Option Limiter
  | l, [] => some l
  | l, move :: moves => (l.step limit windowS move).bind fun l => run l moves

/-- The calls of a key in a window that were allowed. -/
def admitted (l : Limiter) (key : String) (bucket : Int) : Nat :=
  l.answered.count (key, bucket, true)

/-- An update that evicts finds no call of an earlier window that is still to be counted. -/
def Timely (l : Limiter) : Move → Prop
  | .read _ _ => True
  | .update key bucket =>
      4096 < (count l.counts key bucket).rows.length → ∀ call ∈ l.pending, bucket ≤ call.2

/-- Every step of the run is timely. -/
def AllTimely : Limiter → List Move → Prop
  | _, [] => True
  | l, move :: moves => l.Timely move ∧ ∀ l', l.step limit windowS move = some l' → AllTimely l' moves

/-- A window that is not over counts at least the calls it has allowed, and those are within the limit. -/
structure Kept (l : Limiter) : Prop where
  read : ∀ call ∈ l.pending, call.2 ≤ windowOf windowS l.clock
  within : ∀ key bucket, l.admitted key bucket ≤ limit
  counted : ∀ key bucket, l.admitted key bucket ≤ (l.counts.get? (key, bucket)).getD 0 ∨
    bucket < windowOf windowS l.clock ∧ (key, bucket) ∉ l.pending

end Limiter

namespace Limiter

variable {limit : Nat} {windowS : ℚ} {l l' : Limiter}

theorem kept_start (clock : ℚ) : Kept limit windowS (start clock) where
  read := fun _ h => absurd h List.not_mem_nil
  within := fun _ _ => Nat.zero_le _
  counted := fun _ _ => Or.inl (Nat.zero_le _)

theorem kept_read (hwindow : 0 ≤ windowS) (h : Kept limit windowS l) {key : String} {now : ℚ}
    (hnow : l.clock ≤ now) :
    Kept limit windowS
      { l with clock := now, pending := l.pending ++ [(key, windowOf windowS now)] } := by
  have hlater : windowOf windowS l.clock ≤ windowOf windowS now := windowOf_mono hwindow hnow
  constructor
  · intro call hmem
    rcases List.mem_append.mp hmem with hold | hnew
    · exact le_trans (h.read call hold) hlater
    · rw [List.mem_singleton.mp hnew]
  · exact h.within
  · intro key' bucket
    rcases h.counted key' bucket with hcounted | ⟨hover, hdone⟩
    · exact Or.inl hcounted
    · right
      refine ⟨lt_of_lt_of_le hover hlater, ?_⟩
      rw [List.mem_append, List.mem_singleton]
      rintro (hold | hnew)
      · exact hdone hold
      · have heq : bucket = windowOf windowS now := (Prod.mk.inj hnew).2
        omega

theorem admitted_update {key key' : String} {bucket bucket' : Int} {counts : Counts}
    {pending : List (String × Int)} {allowed : Bool} :
    admitted { l with counts := counts, pending := pending,
                      answered := l.answered ++ [(key, bucket, allowed)] } key' bucket' =
      l.admitted key' bucket' + if (key, bucket) = (key', bucket') ∧ allowed = true then 1 else 0 := by
  unfold admitted
  rw [List.count_append, List.count_singleton]
  congr 1
  by_cases heq : (key, bucket) = (key', bucket') ∧ allowed = true
  · obtain ⟨hcall, rfl⟩ := heq
    cases hcall
    simp
  · rw [if_neg heq, if_neg]
    intro hcall
    simp only [beq_iff_eq, Prod.mk.injEq] at hcall
    exact heq ⟨by rw [hcall.1, hcall.2.1], hcall.2.2⟩

theorem evict_cases (counts : Counts) (key : String) (bucket bucket' : Int) :
    (evict counts bucket).get? (key, bucket') = counts.get? (key, bucket') ∨
      bucket' < bucket ∧ 4096 < counts.rows.length := by
  by_cases hle : bucket ≤ bucket'
  · exact Or.inl (get?_evict counts key hle)
  · by_cases hfull : 4096 < counts.rows.length
    · exact Or.inr ⟨by omega, hfull⟩
    · left
      rw [evict, if_neg hfull]

theorem kept_update (h : Kept limit windowS l) {key : String} {bucket : Int}
    (hmem : (key, bucket) ∈ l.pending) (htimely : l.Timely (.update key bucket)) :
    Kept limit windowS { l with
      counts := (InMemoryRateLimiter.update limit l.counts key bucket).2
      pending := l.pending.erase (key, bucket)
      answered := l.answered ++
        [(key, bucket, (InMemoryRateLimiter.update limit l.counts key bucket).1)] } := by
  -- the window of the call is not over for its key, so its counter is right
  have hopen : l.admitted key bucket ≤ (l.counts.get? (key, bucket)).getD 0 := by
    rcases h.counted key bucket with hcounted | ⟨-, hdone⟩
    · exact hcounted
    · exact absurd hmem hdone
  have hallowed : (InMemoryRateLimiter.update limit l.counts key bucket).1 = true ↔
      (l.counts.get? (key, bucket)).getD 0 + 1 ≤ limit := by
    change decide ((((count l.counts key bucket).get? (key, bucket)).getD 0 : Int) ≤ limit) = true ↔ _
    rw [get?_count, if_pos rfl, decide_eq_true_iff]
    omega
  have hgone : ∀ call, call ∉ l.pending → call ∉ l.pending.erase (key, bucket) :=
    fun call hnot herased => hnot (List.mem_of_mem_erase herased)
  constructor
  · exact fun call hcall => h.read call (List.mem_of_mem_erase hcall)
  · intro key' bucket'
    rw [admitted_update]
    split
    · rename_i heq
      obtain ⟨hcall, htrue⟩ := heq
      cases hcall
      have hle := hallowed.mp htrue
      omega
    · exact h.within key' bucket'
  · intro key' bucket'
    rw [admitted_update]
    change _ ≤ ((evict (count l.counts key bucket) bucket).get? (key', bucket')).getD 0 ∨ _
    have hcount := get?_count l.counts key key' bucket bucket'
    by_cases heq : (key, bucket) = (key', bucket')
    · cases heq
      left
      rw [get?_evict _ key le_rfl, hcount, if_pos rfl]
      split <;> omega
    · rw [if_neg fun hcall => heq hcall.1]
      rw [if_neg heq] at hcount
      rcases h.counted key' bucket' with hcounted | ⟨hover, hdone⟩
      · rcases evict_cases (count l.counts key bucket) key' bucket bucket' with hkept | ⟨hbefore, hfull⟩
        · left
          rw [hkept, hcount]
          exact hcounted
        · -- the counter may be evicted: its window is over, and nobody is left in it
          right
          have hnow : bucket ≤ windowOf windowS l.clock := h.read _ hmem
          refine ⟨lt_of_lt_of_le hbefore hnow, hgone _ fun hleft => ?_⟩
          have hlate : bucket ≤ bucket' := htimely hfull _ hleft
          omega
      · exact Or.inr ⟨hover, hgone _ hdone⟩

theorem kept_step (hwindow : 0 ≤ windowS) (h : Kept limit windowS l) {move : Move}
    (htimely : l.Timely move) (hstep : l.step limit windowS move = some l') : Kept limit windowS l' := by
  cases move with
  | read key now =>
      simp only [step] at hstep
      split at hstep
      · rename_i hnow
        cases hstep
        exact kept_read hwindow h hnow
      · cases hstep
  | update key bucket =>
      simp only [step] at hstep
      split at hstep
      · rename_i hmem
        cases hstep
        exact kept_update h hmem htimely
      · cases hstep

theorem kept_run (hwindow : 0 ≤ windowS) {moves : List Move} (h : Kept limit windowS l)
    (htimely : l.AllTimely limit windowS moves) (hrun : l.run limit windowS moves = some l') :
    Kept limit windowS l' := by
  induction moves generalizing l with
  | nil =>
      cases hrun
      exact h
  | cons move moves ih =>
      obtain ⟨l₁, hstep, hrest⟩ := Option.bind_eq_some_iff.mp hrun
      exact ih (kept_step hwindow h htimely.1 hstep) (htimely.2 l₁ hstep) hrest

end Limiter

/-- **The limit of a window.** In every interleaving in which no eviction overtakes a call of an earlier
window, at most `limit` calls of a key are allowed in a window. -/
theorem admitted_le_limit {limit : Nat} {windowS : ℚ} (hwindow : 0 < windowS) {clock : ℚ}
    {moves : List Limiter.Move} {l : Limiter}
    (hrun : (Limiter.start clock).run limit windowS moves = some l)
    (htimely : (Limiter.start clock).AllTimely limit windowS moves) (key : String) (bucket : Int) :
    l.admitted key bucket ≤ limit :=
  (Limiter.kept_run hwindow.le (Limiter.kept_start clock) htimely hrun).within key bucket

/-! ### A crowd in the next window -/

namespace Limiter

variable {limit : Nat} {windowS : ℚ} {l : Limiter}

theorem run_append (l : Limiter) (moves later : List Move) :
    l.run limit windowS (moves ++ later) =
      (l.run limit windowS moves).bind fun l => l.run limit windowS later := by
  induction moves generalizing l with
  | nil => rfl
  | cons move moves ih =>
      rw [List.cons_append, run, run]
      cases l.step limit windowS move with
      | none => rfl
      | some l' => exact ih l'

theorem AllTimely.append {moves later : List Move} (h : l.AllTimely limit windowS moves)
    (hlater : ∀ l', l.run limit windowS moves = some l' → l'.AllTimely limit windowS later) :
    l.AllTimely limit windowS (moves ++ later) := by
  induction moves generalizing l with
  | nil => exact hlater l rfl
  | cons move moves ih =>
      refine ⟨h.1, fun l₁ hstep => ih (h.2 l₁ hstep) fun l' hrun => hlater l' ?_⟩
      rw [run, hstep, Option.bind_some, hrun]

theorem AllTimely.of_step {move : Move} {moves : List Move} {l' : Limiter}
    (hstep : l.step limit windowS move = some l') (htimely : l.Timely move)
    (h : l'.AllTimely limit windowS moves) : l.AllTimely limit windowS (move :: moves) := by
  refine ⟨htimely, fun l₁ hstep' => ?_⟩
  obtain rfl := Option.some.inj (hstep.symm.trans hstep')
  exact h

/-- One call of the next window, by a key of its own. -/
def lateCall (i : Nat) : List Move := [.read (toString (i : Int)) 60, .update (toString (i : Int)) 1]

/-- After `n` calls of the next window: the first window counts `used` calls of `a`, one of them allowed, and
the calls in `waiting` have read the clock in it. -/
structure Waiting (used : Nat) (waiting : List (String × Int)) (n : Nat) (l : Limiter) : Prop where
  rows : l.counts.rows = (("a", 0), used) :: (List.range n).map fun i : Nat => ((toString (i : Int), 1), 1)
  clock : l.clock ≤ 60
  pending : l.pending = waiting
  admitted : l.admitted "a" 0 = 1

section Crowd

variable {used n : Nat} {waiting : List (String × Int)}

theorem Waiting.get?_late (h : Waiting used waiting n l) :
    l.counts.get? (toString (n : Int), 1) = none := by
  have hnew : ∀ r ∈ l.counts.rows, r.1 ≠ (toString (n : Int), 1) := by
    intro r hr heq
    rw [h.rows] at hr
    rcases List.mem_cons.mp hr with rfl | hlate
    · have hbucket : (0 : Int) = 1 := (Prod.mk.inj heq).2
      omega
    · obtain ⟨i, hi, rfl⟩ := List.mem_map.mp hlate
      have hsame := Text.toString_injective (Prod.mk.inj heq).1
      have hlt := List.mem_range.mp hi
      omega
  exact Option.map_eq_none_iff.mpr (Table.find?_eq_none.mpr hnew)

theorem windowOf_late : windowOf 60 60 = 1 := by
  norm_num [windowOf]

/-- The table after one more call of the next window, before anything is evicted. -/
theorem Waiting.count_late (h : Waiting used waiting n l) :
    (count l.counts (toString (n : Int)) 1).rows =
      (("a", 0), used) :: (List.range (n + 1)).map fun i : Nat => ((toString (i : Int), 1), 1) := by
  rw [count, Dict.rows_set_of_none h.get?_late, h.get?_late, h.rows, List.range_succ]
  simp

theorem Waiting.run_late (h : Waiting used waiting n l) (hearly : ∀ call ∈ waiting, call.2 = 0) :
    ∃ l' allowed, l.run 1 60 (lateCall n) = some l' ∧ l'.clock = 60 ∧ l'.pending = waiting ∧
      l'.counts = evict (count l.counts (toString (n : Int)) 1) 1 ∧ l'.admitted "a" 0 = 1 ∧
      l'.answered = l.answered ++ [(toString (n : Int), 1, allowed)] := by
  obtain ⟨counts, clock, pending, answered⟩ := l
  obtain ⟨hrows, hclock, rfl, hadmitted⟩ := h
  have hnew : (toString (n : Int), (1 : Int)) ∉ pending := by
    intro hmem
    have hbucket : (1 : Int) = 0 := hearly _ hmem
    omega
  let out := InMemoryRateLimiter.update (1 : Nat) counts (toString (n : Int)) 1
  refine ⟨⟨out.2, 60, pending, answered ++ [(toString (n : Int), 1, out.1)]⟩, out.1, ?_, rfl, rfl, rfl, ?_, rfl⟩
  · have hclock' : clock ≤ 60 := hclock
    have herase : (pending ++ [(toString (n : Int), (1 : Int))]).erase (toString (n : Int), 1) = pending := by
      rw [List.erase_append_right _ hnew]
      simp
    simp only [lateCall, run, step, hclock', windowOf_late, out, if_true, Option.bind_some, List.mem_append,
      List.mem_singleton, or_true, herase]
  · simpa [Limiter.admitted] using hadmitted

/-- While the table is small, the next caller finds it as the one before did. -/
theorem waiting_late (h : Waiting used waiting n l) (hearly : ∀ call ∈ waiting, call.2 = 0) (hn : n < 4095) :
    ∃ l' allowed, l.run 1 60 (lateCall n) = some l' ∧ Waiting used waiting (n + 1) l' ∧
      l'.answered = l.answered ++ [(toString (n : Int), 1, allowed)] := by
  obtain ⟨l', allowed, hrun, hclock, hpending, hcounts, hadmitted, hanswered⟩ := h.run_late hearly
  refine ⟨l', allowed, hrun, ⟨?_, hclock.le, hpending, hadmitted⟩, hanswered⟩
  have hsmall : ¬4096 < (count l.counts (toString (n : Int)) 1).rows.length := by
    rw [h.count_late]
    simp
    omega
  rw [hcounts, evict, if_neg hsmall, h.count_late]

theorem waiting_run (h : Waiting used waiting 0 l) (hearly : ∀ call ∈ waiting, call.2 = 0) (hn : n ≤ 4095) :
    ∃ l', l.run 1 60 ((List.range n).flatMap lateCall) = some l' ∧ Waiting used waiting n l' ∧
      l.answered <+: l'.answered := by
  induction n with
  | zero => exact ⟨l, rfl, h, List.prefix_refl _⟩
  | succ n ih =>
      obtain ⟨l₁, hrun, hwaiting, hprefix⟩ := ih (by omega)
      obtain ⟨l', allowed, hlate, hwaiting', hanswered⟩ := waiting_late hwaiting hearly (by omega)
      refine ⟨l', ?_, hwaiting', hprefix.trans ⟨_, hanswered.symm⟩⟩
      rw [List.range_succ, List.flatMap_append, run_append, hrun]
      simpa using hlate

/-- The last of 4096 callers evicts what is left of the first window. -/
theorem Waiting.evicted (h : Waiting used waiting 4095 l) (hearly : ∀ call ∈ waiting, call.2 = 0) :
    ∃ l', l.run 1 60 (lateCall 4095) = some l' ∧ l'.pending = waiting ∧ l'.admitted "a" 0 = 1 ∧
      l'.counts.get? ("a", 0) = none ∧ l.answered <+: l'.answered := by
  obtain ⟨l', allowed, hrun, -, hpending, hcounts, hadmitted, hanswered⟩ := h.run_late hearly
  have hfull : 4096 < (count l.counts (toString ((4095 : Nat) : Int)) 1).rows.length := by
    rw [h.count_late]
    simp
  refine ⟨l', hrun, hpending, hadmitted, ?_, ⟨_, hanswered.symm⟩⟩
  rw [hcounts, evict, if_pos hfull, Dict.get?_filter, if_neg (by simp)]

/-- The whole crowd, after which nothing is left of the first window. -/
theorem waiting_crowd (h : Waiting used waiting 0 l) (hearly : ∀ call ∈ waiting, call.2 = 0) :
    ∃ l', l.run 1 60 ((List.range 4096).flatMap lateCall) = some l' ∧ l'.pending = waiting ∧
      l'.admitted "a" 0 = 1 ∧ l'.counts.get? ("a", 0) = none ∧ l.answered <+: l'.answered := by
  obtain ⟨l₁, hrun, hwaiting, hprefix⟩ := waiting_run h hearly (le_refl 4095)
  obtain ⟨l', hlate, hpending, hadmitted, hgone, hprefix'⟩ := hwaiting.evicted hearly
  refine ⟨l', ?_, hpending, hadmitted, hgone, hprefix.trans hprefix'⟩
  have hsplit : (List.range 4096).flatMap lateCall = (List.range 4095).flatMap lateCall ++ lateCall 4095 := by
    rw [List.range_succ, List.flatMap_append]
    simp
  rw [hsplit, run_append, hrun, Option.bind_some, hlate]

/-- When nobody waits, a caller of the next window overtakes nobody, and leaves nobody waiting. -/
theorem lateCall_timely (hl : l.pending = []) (i : Nat) :
    l.AllTimely 1 60 (lateCall i) ∧ ∀ l', l.run 1 60 (lateCall i) = some l' → l'.pending = [] := by
  by_cases hclock : l.clock ≤ 60
  · have hread : l.step 1 60 (.read (toString (i : Int)) 60) =
        some { l with clock := 60, pending := [(toString (i : Int), 1)] } := by
      simp only [step, hclock, windowOf_late, hl, List.nil_append, if_true]
    constructor
    · refine .of_step hread trivial ⟨fun _ call hcall => ?_, fun _ _ => trivial⟩
      rw [List.mem_singleton.mp hcall]
    · intro l' hrun
      rw [lateCall, run, hread, Option.bind_some] at hrun
      simp only [run, step, List.mem_singleton, if_true, Option.bind_some, Option.some.injEq] at hrun
      rw [← hrun]
      simp
  · have hnone : l.step 1 60 (.read (toString (i : Int)) 60) = none := if_neg hclock
    constructor
    · refine ⟨trivial, fun l' hstep => ?_⟩
      rw [hnone] at hstep
      contradiction
    · intro l' hrun
      rw [lateCall, run, hnone] at hrun
      contradiction

theorem crowd_timely (hl : l.pending = []) (n : Nat) :
    l.AllTimely 1 60 ((List.range n).flatMap lateCall) ∧
      ∀ l', l.run 1 60 ((List.range n).flatMap lateCall) = some l' → l'.pending = [] := by
  induction n with
  | zero =>
      refine ⟨trivial, fun l' hrun => ?_⟩
      cases hrun
      exact hl
  | succ n ih =>
      rw [List.range_succ, List.flatMap_append, List.flatMap_singleton]
      constructor
      · exact ih.1.append fun l' hrun => (lateCall_timely (ih.2 l' hrun) n).1
      · intro l' hrun
        rw [run_append] at hrun
        obtain ⟨l₁, hfirst, hlast⟩ := Option.bind_eq_some_iff.mp hrun
        exact (lateCall_timely (ih.2 l₁ hfirst) n).2 l' hlast

end Crowd

/-- Two calls of one key read the clock, and both are counted before `n` callers of the next window come. -/
def crowded (n : Nat) : List Move :=
  [.read "a" 0, .read "a" 0, .update "a" 0, .update "a" 0] ++ (List.range n).flatMap lateCall

/-- Two calls of one key read the clock and one of them is counted; the other one has to wait until the crowd
of the next window is served. -/
def overtaken : List Move :=
  [.read "a" 0, .read "a" 0, .update "a" 0] ++ (List.range 4096).flatMap lateCall ++ [.update "a" 0]

theorem windowOf_early : windowOf 60 0 = 0 := by
  norm_num [windowOf]

theorem crowded_start : (start 0).run 1 60 [.read "a" 0, .read "a" 0, .update "a" 0, .update "a" 0] =
    some ⟨Dict.set Table.empty ("a", 0) 2, 0, [], [("a", 0, true), ("a", 0, false)]⟩ := by
  simp only [run, step, start, windowOf_early]
  rfl

theorem crowded_start_timely :
    (start 0).AllTimely 1 60 [.read "a" 0, .read "a" 0, .update "a" 0, .update "a" 0] := by
  have hread : (start 0).step 1 60 (.read "a" 0) = some ⟨Table.empty, 0, [("a", 0)], []⟩ := by
    simp only [step, start, windowOf_early]
    rfl
  have hread' : step 1 60 ⟨Table.empty, 0, [("a", 0)], []⟩ (.read "a" 0) =
      some ⟨Table.empty, 0, [("a", 0), ("a", 0)], []⟩ := by
    simp only [step, windowOf_early]
    rfl
  refine .of_step hread trivial (.of_step hread' trivial (.of_step rfl ?_ ⟨?_, fun _ _ => trivial⟩))
  · intro _ call hcall
    simp at hcall
    rw [hcall]
  · intro _ call hcall
    obtain rfl := List.mem_singleton.mp hcall
    rfl

theorem crowded_timely (n : Nat) : (start 0).AllTimely 1 60 (crowded n) := by
  refine crowded_start_timely.append fun l hstart => ?_
  rw [crowded_start, Option.some.injEq] at hstart
  have hpending : l.pending = [] := by rw [← hstart]
  exact (crowd_timely hpending n).1

theorem overtaken_start : (start 0).run 1 60 [.read "a" 0, .read "a" 0, .update "a" 0] =
    some ⟨Dict.set Table.empty ("a", 0) 1, 0, [("a", 0)], [("a", 0, true)]⟩ := by
  simp only [run, step, start, windowOf_early]
  rfl

end Limiter

/-- A window with room for one call: the second of two concurrent calls is denied, and stays denied when the
window has been evicted. -/
theorem admitted_le_limit_crowded :
    ∃ l, (Limiter.start 0).run 1 60 (Limiter.crowded 4096) = some l ∧ ("a", 0, false) ∈ l.answered ∧
      l.counts.get? ("a", 0) = none ∧ ∀ key bucket, l.admitted key bucket ≤ 1 := by
  have hwaiting : Limiter.Waiting 2 [] 0
      ⟨Dict.set Table.empty ("a", 0) 2, 0, [], [("a", 0, true), ("a", 0, false)]⟩ :=
    ⟨rfl, by norm_num, rfl, rfl⟩
  obtain ⟨l, hcrowd, -, -, hgone, hprefix⟩ := Limiter.waiting_crowd hwaiting (by simp)
  have hrun : (Limiter.start 0).run 1 60 (Limiter.crowded 4096) = some l := by
    rw [Limiter.crowded, Limiter.run_append, Limiter.crowded_start, Option.bind_some, hcrowd]
  exact ⟨l, hrun, hprefix.subset (by simp), hgone,
    admitted_le_limit (by norm_num) hrun (Limiter.crowded_timely 4096)⟩

/-! ### A call that is overtaken -/

namespace Limiter

/-- A window with room for one call, in which two are allowed. -/
theorem admitted_over_limit :
    ∃ l, (start 0).run 1 60 overtaken = some l ∧ l.admitted "a" 0 = 2 := by
  have hwaiting : Waiting 1 [("a", 0)] 0 ⟨Dict.set Table.empty ("a", 0) 1, 0, [("a", 0)], [("a", 0, true)]⟩ :=
    ⟨rfl, by norm_num, rfl, rfl⟩
  obtain ⟨⟨counts, clock, pending, answered⟩, hcrowd, hpending, hadmitted, hgone, -⟩ :=
    waiting_crowd hwaiting (by simp)
  cases hpending
  have hcounted : ((count counts "a" 0).get? ("a", 0)).getD 0 = 1 := by
    rw [get?_count, if_pos rfl]
    rw [show counts.get? ("a", 0) = none from hgone]
    rfl
  refine ⟨⟨evict (count counts "a" 0) 0, clock, [], answered ++ [("a", 0, true)]⟩, ?_, ?_⟩
  · rw [overtaken, run_append, run_append, overtaken_start, Option.bind_some, hcrowd, Option.bind_some]
    simp [run, step, InMemoryRateLimiter.update, hcounted]
  · have hsame : answered.count ("a", (0 : Int), true) = 1 := hadmitted
    simp [Limiter.admitted, hsame]

end Limiter

end Bass
