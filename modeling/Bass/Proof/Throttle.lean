import Mathlib.Algebra.Order.BigOperators.Group.Finset
import Bass.Interaction.Credits
import Bass.Proof.ConcurrentFires
import Bass.Proof.RateLimits

/-!
# What the rate limit bounds

A fixed window lets exactly the first `limit` calls of each window through, so a stretch of `k` windows,
which meets at most `k + 1` of them, lets at most `(k + 1) * limit` through. A fire of the API asks the
limiter before anything else, and inserts at most one run for a yes; added up over all threads of a run,
the store gains no more runs of a tenant than the limiter said yes to it.
-/

namespace Bass

open Interaction EngineM

/-! ### Windows -/

section Windows

variable {limit : Int} {windowS : ℚ}

/-- The calls that were let through. -/
def granted : List RateCall → List Bool → List RateCall
  | call :: calls, true :: answers => call :: granted calls answers
  | _ :: calls, false :: answers => granted calls answers
  | _, _ => []

/-- In every window, exactly the first `limit` calls of a key are let through. The induction is on the
calls; the calls before them have used up a part of the window. -/
theorem callsIn_granted (earlier calls : List RateCall) (key : String) (bucket : Int) :
    callsIn windowS (granted calls (fixedWindow limit windowS earlier calls)) key bucket +
        min (callsIn windowS earlier key bucket) limit.toNat =
      min (callsIn windowS (earlier ++ calls) key bucket) limit.toNat := by
  induction calls generalizing earlier with
  | nil =>
      rw [List.append_nil]
      exact Nat.zero_add _
  | cons call calls ih =>
      obtain ⟨key', now⟩ := call
      have hrest := ih (earlier ++ [(key', now)])
      rw [List.append_assoc, List.singleton_append] at hrest
      rw [fixedWindow, ← hrest]
      by_cases hcall : (key', windowOf windowS now) = (key, bucket)
      · cases hcall
        rw [callsIn_append_self]
        by_cases hroom : (callsIn windowS earlier key (windowOf windowS now) : Int) < limit
        · rw [decide_eq_true hroom, granted]
          have hcons : ∀ l : List RateCall, callsIn windowS ((key, now) :: l) key (windowOf windowS now) =
              callsIn windowS l key (windowOf windowS now) + 1 := fun l => by simp [callsIn]
          rw [hcons]
          omega
        · rw [decide_eq_false hroom, granted]
          omega
      · have hother : ∀ l : List RateCall, callsIn windowS ((key', now) :: l) key bucket =
            callsIn windowS l key bucket := by
          intro l
          have hne : ¬(key' = key ∧ windowOf windowS now = bucket) := fun h => hcall (Prod.ext h.1 h.2)
          simp [callsIn, hne]
        rw [callsIn_append_of_ne earlier hcall]
        cases decide ((callsIn windowS earlier key' (windowOf windowS now) : Int) < limit) with
        | true => rw [granted, hother]
        | false => rw [granted]

theorem callsIn_granted_le (calls : List RateCall) (key : String) (bucket : Int) :
    callsIn windowS (granted calls (fixedWindow limit windowS [] calls)) key bucket ≤ limit.toNat := by
  have h : callsIn windowS (granted calls (fixedWindow limit windowS [] calls)) key bucket +
      min (callsIn windowS [] key bucket) limit.toNat = min (callsIn windowS calls key bucket) limit.toNat :=
    callsIn_granted [] calls key bucket
  omega

theorem mem_of_granted {calls : List RateCall} {answers : List Bool} {call : RateCall}
    (h : call ∈ granted calls answers) : call ∈ calls := by
  induction calls, answers using granted.induct with
  | case1 first calls answers ih =>
      rcases List.mem_cons.mp h with rfl | hrest
      · exact List.mem_cons_self
      · exact List.mem_cons_of_mem _ (ih hrest)
  | case2 first calls answers ih => exact List.mem_cons_of_mem _ (ih h)
  | case3 calls answers h₁ h₂ =>
      rw [granted] at h
      · exact absurd h List.not_mem_nil
      · exact h₁
      · exact h₂

/-- Calls of a key, by the windows they fell in. -/
theorem countP_le_sum {calls : List RateCall} {key : String} {first : Int} {n : Nat}
    (h : ∀ call ∈ calls, call.1 = key →
      first ≤ windowOf windowS call.2 ∧ windowOf windowS call.2 < first + n) :
    (calls.countP fun call => call.1 = key) ≤
      ∑ j ∈ Finset.range n, callsIn windowS calls key (first + j) := by
  induction calls with
  | nil => exact Nat.zero_le _
  | cons call calls ih =>
      have hrest := ih fun other hmem => h other (List.mem_cons_of_mem _ hmem)
      by_cases hkey : call.1 = key
      · obtain ⟨hlow, hhigh⟩ := h call List.mem_cons_self hkey
        have hcons : ∀ bucket, callsIn windowS (call :: calls) key bucket =
            callsIn windowS calls key bucket + if windowOf windowS call.2 = bucket then 1 else 0 := by
          intro bucket
          simp [callsIn, List.countP_cons, hkey]
        obtain ⟨j, hj⟩ : ∃ j : Nat, windowOf windowS call.2 = first + j := ⟨_, by
          rw [Int.toNat_of_nonneg (a := windowOf windowS call.2 - first) (by omega)]
          omega⟩
        have hmem : j ∈ Finset.range n := Finset.mem_range.mpr (by omega)
        calc (call :: calls).countP (fun call => call.1 = key)
            = (calls.countP fun call => call.1 = key) + 1 := by simp [hkey]
          _ ≤ (∑ j ∈ Finset.range n, callsIn windowS calls key (first + j)) +
                ∑ i ∈ Finset.range n, if windowOf windowS call.2 = first + i then 1 else 0 := by
              refine Nat.add_le_add hrest ?_
              calc 1 = if windowOf windowS call.2 = first + (j : Nat) then 1 else 0 := by rw [if_pos hj]
                _ ≤ _ := Finset.single_le_sum
                    (f := fun i : Nat => if windowOf windowS call.2 = first + i then 1 else 0)
                    (fun _ _ => Nat.zero_le _) hmem
          _ = _ := by simp only [hcons, Finset.sum_add_distrib]
      · calc (call :: calls).countP (fun call => call.1 = key)
            = calls.countP fun call => call.1 = key := by simp [hkey]
          _ ≤ _ := hrest
          _ = _ := Finset.sum_congr rfl fun j _ => by simp [callsIn, hkey]

/-- A stretch of `k` windows meets at most `k + 1`. -/
theorem windowOf_lt_of_lt (hwindow : 0 < windowS) {t now : ℚ} {k : Nat} (h : now < t + k * windowS) :
    windowOf windowS now < windowOf windowS t + (k + 1 : Nat) := by
  have hshift : now / windowS < t / windowS + k := by
    calc now / windowS < (t + k * windowS) / windowS := div_lt_div_of_pos_right h hwindow
      _ = t / windowS + k := by rw [add_div, mul_div_assoc, div_self hwindow.ne', mul_one]
  have hle : windowOf windowS now ≤ windowOf windowS t + k := by
    calc windowOf windowS now ≤ ⌊t / windowS + k⌋ := Int.floor_le_floor hshift.le
      _ = windowOf windowS t + k := Int.floor_add_natCast _ _
  push_cast
  omega

/-- Of the calls that a key makes within a stretch of `k` windows, at most `(k + 1) * limit` are let
through. -/
theorem granted_le {calls : List RateCall} {key : String} (hwindow : 0 < windowS) {t : ℚ} {k : Nat}
    (hspan : ∀ call ∈ calls, call.1 = key → t ≤ call.2 ∧ call.2 < t + k * windowS) :
    ((granted calls (fixedWindow limit windowS [] calls)).countP fun call => call.1 = key) ≤
      (k + 1) * limit.toNat := by
  have hwithin : ∀ call ∈ granted calls (fixedWindow limit windowS [] calls), call.1 = key →
      windowOf windowS t ≤ windowOf windowS call.2 ∧
        windowOf windowS call.2 < windowOf windowS t + (k + 1 : Nat) := by
    intro call hmem hkey
    obtain ⟨hlow, hhigh⟩ := hspan call (mem_of_granted hmem) hkey
    exact ⟨windowOf_mono hwindow.le hlow, windowOf_lt_of_lt hwindow hhigh⟩
  calc _ ≤ ∑ j ∈ Finset.range (k + 1), callsIn windowS
          (granted calls (fixedWindow limit windowS [] calls)) key (windowOf windowS t + j) :=
        countP_le_sum hwithin
    _ ≤ ∑ _j ∈ Finset.range (k + 1), limit.toNat :=
        Finset.sum_le_sum fun j _ => callsIn_granted_le calls key _
    _ = (k + 1) * limit.toNat := by rw [Finset.sum_const_nat fun _ _ => rfl, Finset.card_range]

end Windows

/-! ### Fires -/

/-- Whether the call stores a run of the tenant. -/
def creates (tenantId : String) : Prog.Event Call Call.Res → Nat
  | ⟨⟨_, .insertRun run⟩, true⟩ => if run.tenantId = tenantId then 1 else 0
  | _ => 0

/-- Whether the limiter says yes to the tenant. -/
def admits (tenantId : String) : Prog.Event Call Call.Res → Nat
  | ⟨⟨_, .allowRequest tenant⟩, true⟩ => if tenant = tenantId then 1 else 0
  | _ => 0

section Fires

variable {d : Deployment} {redact : Json → Json} {tenantId : String}

theorem creates_of_notInsertion {trail : Trail} (h : ∀ event ∈ trail, event.1.op.NotInsertion) :
    Prog.sumOver (creates tenantId) trail = 0 := by
  refine List.sum_eq_zero fun amount hmem => ?_
  obtain ⟨⟨⟨m, op⟩, answer⟩, hevent, rfl⟩ := List.mem_map.mp hmem
  have hop := h _ hevent
  cases op with
  | insertRun run => exact absurd rfl (hop run)
  | _ => rfl

theorem creates_of_unstarted {run : Run} {trail : Trail} (h : Unstarted run trail) :
    Prog.sumOver (creates tenantId) trail = 0 := by
  refine List.sum_eq_zero fun amount hmem => ?_
  obtain ⟨⟨⟨m, op⟩, answer⟩, hevent, rfl⟩ := List.mem_map.mp hmem
  cases op with
  | insertRun run' =>
      obtain ⟨-, rfl⟩ := h.inserts m run' answer hevent
      rfl
  | _ => rfl

/-- A fire stores its run at most once, and no other. -/
theorem creates_of_creating {ok : (call : Call) → call.Res → Prop} {request : Request} {run : Run} {m : Mem}
    {trail : Trail} (hm : m.run = run) (hpath : (request.creating d run m).Path ok trail) :
    Prog.sumOver (creates tenantId) trail ≤ if run.tenantId = tenantId then 1 else 0 := by
  rcases creating_path hm hpath with hunstarted | ⟨m', before, after, rfl, -, hbefore, hafter⟩
  · exact (creates_of_unstarted hunstarted).trans_le (Nat.zero_le _)
  · have hrest : Prog.sumOver (creates tenantId) after = 0 :=
      creates_of_notInsertion (hafter.calls (inserts_driving d request m' () trivial))
    calc Prog.sumOver (creates tenantId) (before ++ ⟨⟨m', .insertRun run⟩, true⟩ :: after)
        = Prog.sumOver (creates tenantId) before + (creates tenantId ⟨⟨m', .insertRun run⟩, true⟩ +
            Prog.sumOver (creates tenantId) after) := by
          rw [Prog.sumOver, List.map_append, List.sum_append, List.map_cons, List.sum_cons]
          rfl
      _ = creates tenantId ⟨⟨m', .insertRun run⟩, true⟩ := by
          rw [creates_of_unstarted hbefore, hrest, Nat.zero_add, Nat.add_zero]
      _ ≤ _ := le_refl _

/-- A request of the API stores a run of the tenant only for a yes of the limiter. -/
theorem creates_le_admits {ok : (call : Call) → call.Res → Prop} {request : Request} {trail : Trail}
    (hfire : ∀ tenant runId wf trigger buffer,
      request = .orchestratorFire tenant runId wf trigger buffer → tenant ≠ tenantId)
    (hpath : (request.program d).Path ok trail) :
    Prog.sumOver (creates tenantId) trail ≤ Prog.sumOver (admits tenantId) trail := by
  have hcode : ((request.code d).exec request.memory).Path ok trail := hpath.of_map
  have hquiet : request.wanted d = none →
      Prog.sumOver (creates tenantId) trail ≤ Prog.sumOver (admits tenantId) trail := by
    intro hnone
    refine (creates_of_notInsertion fun event hmem run heq => ?_).trans_le (Nat.zero_le _)
    obtain ⟨⟨m, op⟩, answer⟩ := event
    cases heq
    exact absurd (hnone.symm.trans (wanted_of_insertion hpath hmem)) (by simp)
  cases request with
  | orchestratorFire tenant runId wf trigger buffer =>
      rw [exec_orchestratorFire] at hcode
      have hother : (Run.ofTrigger d.builtins tenant runId wf trigger).tenantId ≠ tenantId :=
        hfire _ _ _ _ _ rfl
      calc Prog.sumOver (creates tenantId) trail
          ≤ if tenant = tenantId then 1 else 0 := creates_of_creating rfl hcode
        _ = 0 := if_neg hother
        _ ≤ _ := Nat.zero_le _
  | apiFire tenant runId wfName trigger =>
      cases hwf : d.workflowsByName.get? wfName with
      | none => exact hquiet (by rw [Request.wanted, hwf, Option.map_none])
      | some wf =>
          rw [exec_apiFire d trigger hwf] at hcode
          cases hcode with
          | nil => exact le_refl _
          | @cons _ _ allowed rest _ tail =>
              cases allowed with
              | false =>
                  cases tail
                  exact Nat.zero_le _
              | true =>
                  cases tail with
                  | nil => exact Nat.zero_le _
                  | @cons _ _ answer last _ tail =>
                      calc Prog.sumOver (creates tenantId) _
                          = Prog.sumOver (creates tenantId) last := by simp [Prog.sumOver, creates]
                        _ ≤ if tenant = tenantId then 1 else 0 := creates_of_creating rfl tail
                        _ ≤ (if tenant = tenantId then 1 else 0) + Prog.sumOver (admits tenantId) (_ :: last) :=
                            Nat.le_add_right _ _
                        _ = _ := List.sum_cons.symm
  | orchestratorResume | runnerResume | apiResolve | apiCancel => exact hquiet rfl

end Fires

/-! ### Runs of a tenant -/

def DB.runsOf (db : DB) (tenantId : String) : Nat := db.runs.rows.countP fun row => row.tenantId = tenantId

theorem DB.runsOf_eq (db : DB) (tenantId : String) :
    db.runsOf tenantId = db.idents.countP fun ident => ident.triggerKey.1 = tenantId := by
  rw [DB.idents, List.countP_map]
  rfl

/-- What the requests asked the limiter, and its answers, in order. -/
def asked : Pool.Label Request Call Call.Res → Option (String × Bool)
  | .call _ ⟨_, .allowRequest tenantId⟩ answer => some (tenantId, answer)
  | _ => none

/-- The limiter, its counters empty at the start, answered the run as it answers the calls `calls`: the one in
the process, or the one in Redis, whose window is a whole number of seconds. -/
inductive AnsweredBy (limit : Int) (windowS : ℚ) (calls : List RateCall)
    (labels : List (Pool.Label Request Call Call.Res)) : Prop where
  | memory (hasked : labels.filterMap asked =
      (calls.map Prod.fst).zip (answers (InMemoryRateLimiter.allow limit windowS) Table.empty calls))
  | redis {seconds : Nat} (hseconds : windowS = seconds) (hasked : labels.filterMap asked =
      (calls.map Prod.fst).zip (answers (RedisRateLimiter.allow limit seconds) Table.empty calls))

section Runs

variable {d : Deployment} {redact : Json → Json} {tenantId : String}

theorem runsOf_of_step {policy : PolicyEngine} {db db' : DB} {call : Call} {answer : call.Res}
    (h : call.step policy redact db answer db') :
    db'.runsOf tenantId = db.runsOf tenantId + creates tenantId ⟨call, answer⟩ := by
  obtain ⟨m, op⟩ := call
  rw [DB.runsOf_eq, DB.runsOf_eq]
  by_cases hop : ∃ run, op = .insertRun run
  · obtain ⟨run, rfl⟩ := hop
    obtain ⟨now, hinsert⟩ := h
    rcases idents_of_insertRun hinsert with ⟨rfl, hidents, -⟩ | ⟨rfl, rfl⟩
    · rw [hidents, List.countP_append, List.countP_singleton]
      change _ = _ + if run.tenantId = tenantId then 1 else 0
      congr 1
      exact if_congr decide_eq_true_iff rfl rfl
    · rfl
  · rw [idents_of_step h fun run heq => hop ⟨run, heq⟩]
    cases op with
    | insertRun run => exact absurd ⟨run, rfl⟩ hop
    | _ => rfl

/-- The store gains the runs that are created along a run of the system. -/
theorem runsOf_of_run {c c' : System} {labels : List (Pool.Label Request Call Call.Res)}
    (hrun : System.Run d redact c labels c') :
    c'.shared.runsOf tenantId = c.shared.runsOf tenantId + Pool.total (creates tenantId) labels := by
  induction hrun with
  | nil c => rfl
  | @cons c c₁ c' label labels head _ ih =>
      cases head with
      | @call threads s s' i tag call next answer hthread hstep =>
          calc c'.shared.runsOf tenantId
              = s'.runsOf tenantId + Pool.total (creates tenantId) labels := ih
            _ = s.runsOf tenantId + creates tenantId ⟨call, answer⟩ + Pool.total (creates tenantId) labels := by
                rw [runsOf_of_step hstep]
            _ = _ := Nat.add_assoc _ _ _
      | spawn | crash => exact ih
      | env henv => exact henv.elim

theorem total_admits (labels : List (Pool.Label Request Call Call.Res)) :
    Pool.total (admits tenantId) labels = (labels.filterMap asked).countP (· = (tenantId, true)) := by
  induction labels with
  | nil => rfl
  | cons label labels ih =>
      cases label with
      | call i call answer =>
          obtain ⟨m, op⟩ := call
          rw [Pool.total, ih]
          cases op with
          | allowRequest tenant =>
              have hasked : asked (.call i ⟨m, .allowRequest tenant⟩ answer) = some (tenant, answer) := rfl
              rw [List.filterMap_cons_some hasked, List.countP_cons, Nat.add_comm]
              cases answer <;> simp [admits]
          | _ => exact Nat.zero_add _
      | spawn | crash | env => exact ih

theorem countP_zip (calls : List RateCall) (answers : List Bool) :
    ((calls.map Prod.fst).zip answers).countP (· = (tenantId, true)) =
      (granted calls answers).countP fun call => call.1 = tenantId := by
  induction calls, answers using granted.induct with
  | case1 call calls answers ih => simp [granted, List.countP_cons, ih]
  | case2 call calls answers ih => simp [granted, ih]
  | case3 calls answers h₁ h₂ =>
      cases calls with
      | nil => rfl
      | cons call calls =>
          cases answers with
          | nil => rfl
          | cons answer answers =>
              cases answer with
              | true => exact absurd rfl (h₁ call calls answers rfl)
              | false => exact absurd rfl (h₂ call calls answers rfl)

/-- Either limiter counts windows, if it is asked in the order of the clock. -/
theorem asked_of_limited {limit : Int} {windowS : ℚ} (hwindow : 0 < windowS) {calls : List RateCall}
    (htime : InTime calls) {labels : List (Pool.Label Request Call Call.Res)}
    (h : AnsweredBy limit windowS calls labels) :
    labels.filterMap asked = (calls.map Prod.fst).zip (fixedWindow limit windowS [] calls) := by
  cases h with
  | memory hasked =>
      have hempty : InMemoryRateLimiter.Tracks windowS Table.empty [] := fun _ _ _ => rfl
      rw [hasked, answers_eq_fixedWindow (InMemoryRateLimiter.Tracks windowS) ?_ hempty htime]
      intro counts earlier key now htracks hbefore
      exact InMemoryRateLimiter.tracks_allow hwindow.le htracks hbefore
  | @redis seconds hseconds hasked =>
      subst hseconds
      have hempty : RedisRateLimiter.Tracks seconds Table.empty [] := fun _ _ => rfl
      rw [hasked, answers_eq_fixedWindow (RedisRateLimiter.Tracks seconds) ?_ hempty htime]
      intro redis earlier key now htracks _
      exact RedisRateLimiter.tracks_allow (by exact_mod_cast hwindow) htracks

end Runs

/-- **The throttle.** In every interleaving of requests, crashes included, none of them a fire past the
API for the tenant: if the limiter, in the process or in Redis, started with empty counters and was asked in
the order of the clock, and the tenant's questions fell within `k` windows' time, then the store has gained
at most `(k + 1) * limit` runs of the tenant. -/
theorem fires_throttled {d : Deployment} {redact : Json → Json} {c : System} {db : DB}
    {labels : List (Pool.Label Request Call Call.Res)} (hrun : System.Run d redact ⟨[], db⟩ labels c)
    {tenantId : String}
    (hfires : ∀ tenant runId wf trigger buffer,
      .orchestratorFire tenant runId wf trigger buffer ∈ c.threads.map Prod.fst → tenant ≠ tenantId)
    {limit : Int} {windowS : ℚ} (hwindow : 0 < windowS) {calls : List RateCall} (htime : InTime calls)
    (hlimited : AnsweredBy limit windowS calls labels) {t : ℚ} {k : Nat}
    (hspan : ∀ call ∈ calls, call.1 = tenantId → t ≤ call.2 ∧ call.2 < t + k * windowS) :
    c.shared.runsOf tenantId ≤ db.runsOf tenantId + (k + 1) * limit.toNat := by
  have hadmitted : Pool.total (creates tenantId) labels ≤ Pool.total (admits tenantId) labels := by
    refine hrun.total_le fun i request hrequest => ?_
    refine creates_le_admits (fun tenant runId wf trigger buffer heq => ?_)
      (hrun.path_of_tag (Nat.zero_le i) hrequest)
    obtain ⟨thread, hthread, hfst⟩ := Option.map_eq_some_iff.mp hrequest
    refine hfires tenant runId wf trigger buffer (List.mem_map.mpr ⟨thread, List.mem_of_getElem? hthread, ?_⟩)
    rw [hfst, heq]
  calc c.shared.runsOf tenantId
      = db.runsOf tenantId + Pool.total (creates tenantId) labels := runsOf_of_run hrun
    _ ≤ db.runsOf tenantId + Pool.total (admits tenantId) labels := Nat.add_le_add_left hadmitted _
    _ = db.runsOf tenantId +
          (granted calls (fixedWindow limit windowS [] calls)).countP fun call => call.1 = tenantId := by
        rw [total_admits, asked_of_limited hwindow htime hlimited, countP_zip]
    _ ≤ db.runsOf tenantId + (k + 1) * limit.toNat :=
        Nat.add_le_add_left (granted_le hwindow hspan) _

/-- Two fires, one at the end of a window and one at the start of the next. -/
def burst : List (Pool.Label Request Call Call.Res) × System :=
  System.play payDeployment id (.constant .null)
    [.spawn (.apiFire "acme" "first" "payments" (Dict.ofList [("id", .str "a")])),
      .spawn (.apiFire "acme" "second" "payments" (Dict.ofList [("id", .str "b")])),
      .call 0, .call 1, .call 1, .call 1, .call 0, .call 0] ⟨[], DB.empty⟩

theorem burst_requests : burst.2.threads.map Prod.fst =
    [.apiFire "acme" "first" "payments" (Dict.ofList [("id", .str "a")]),
      .apiFire "acme" "second" "payments" (Dict.ofList [("id", .str "b")])] :=
  Pool.play_tags _ _

/-- With room for one run in a window, a minute sees two, and the bound is two. -/
theorem fires_throttled_burst :
    burst.2.shared.runsOf "acme" = 2 ∧
    burst.2.shared.runsOf "acme" ≤ DB.empty.runsOf "acme" + (1 + 1) * (1 : Int).toNat := by
  refine ⟨by decide +kernel, ?_⟩
  have hlimited : AnsweredBy 1 60 [("acme", 59), ("acme", 60)] burst.1 := .memory (by decide +kernel)
  refine fires_throttled (System.play_run _ _ _ _ _) ?_ (by decide) ?_ hlimited (t := 59) (k := 1) ?_
  · intro tenant runId wf trigger buffer hmem
    have htags := burst_requests
    rw [burst] at htags
    rw [htags] at hmem
    simp at hmem
  · simp only [InTime, List.pairwise_cons, List.mem_cons, List.not_mem_nil]
    norm_num
  · simp only [List.mem_cons, List.not_mem_nil]
    norm_num

end Bass
