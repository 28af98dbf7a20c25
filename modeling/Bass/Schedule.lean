import Bass.Redaction
import Bass.Services
import Mathlib.Data.List.DropRight

/-!
# Schedules

`schedule.py`: the cron matcher and the scheduler, and replicas of the scheduler that fire through the
orchestrators of their tenants on one store. What counts as white space or as a decimal digit comes from
the interpreter's Unicode database; only the ASCII part of it is fixed here.
-/

namespace Bass

open Interaction

/-! ### Datetimes -/

def isLeap (year : Nat) : Bool := year % 4 == 0 && (year % 100 != 0 || year % 400 == 0)

def daysInMonth (year : Nat) : Nat → Nat
  | 2 => if isLeap year then 29 else 28
  | 4 | 6 | 9 | 11 => 30
  | _ => 31

/-- `datetime`, as its constructor accepts it. -/
structure DateTime where
  year : Nat
  month : Nat
  day : Nat
  hour : Nat
  minute : Nat
  second : Nat := 0
  microsecond : Nat := 0
  year_valid : 1 ≤ year ∧ year ≤ 9999
  month_valid : 1 ≤ month ∧ month ≤ 12
  day_valid : 1 ≤ day ∧ day ≤ daysInMonth year month
  hour_valid : hour < 24
  minute_valid : minute < 60
  second_valid : second < 60
  microsecond_valid : microsecond < 1000000

namespace DateTime

/-- `dt.toordinal()`: January 1 of year 1 is day 1. -/
def toordinal (dt : DateTime) : Nat :=
  let before := dt.year - 1
  before * 365 + before / 4 - before / 100 + before / 400 +
    ((List.range (dt.month - 1)).map fun i => daysInMonth dt.year (i + 1)).sum + dt.day

/-- `dt.weekday()`: Monday is 0. -/
def weekday (dt : DateTime) : Nat := (dt.toordinal + 6) % 7

/-- A field of `strftime` that is padded to two digits. -/
def padded (n : Nat) : String := String.ofList [Nat.digitChar (n / 10), Nat.digitChar (n % 10)]

/-- `dt.strftime("%Y-%m-%dT%H:%M")`. -/
def slot (dt : DateTime) : String :=
  toString dt.year ++ "-" ++ padded dt.month ++ "-" ++ padded dt.day ++ "T" ++ padded dt.hour ++ ":" ++
    padded dt.minute

/-- The calendar minute that a datetime falls into. -/
def calendarMinute (dt : DateTime) : Nat × Nat × Nat × Nat × Nat :=
  (dt.year, dt.month, dt.day, dt.hour, dt.minute)

/-- A minute after midnight, January 1, 2026. -/
def newYear (minute : Fin 60) : DateTime where
  year := 2026
  month := 1
  day := 1
  hour := 0
  minute := minute
  year_valid := by decide
  month_valid := by decide
  day_valid := by decide
  hour_valid := by decide
  minute_valid := minute.isLt
  second_valid := by decide
  microsecond_valid := by decide

/-- A second of the eleventh of July 2026 at nine. -/
def julyMorning (second : Fin 60) : DateTime where
  year := 2026
  month := 7
  day := 11
  hour := 9
  minute := 0
  second := second
  year_valid := by decide
  month_valid := by decide
  day_valid := by decide
  hour_valid := by decide
  minute_valid := by decide
  second_valid := second.isLt
  microsecond_valid := by decide

end DateTime

/-! ### Texts -/

/-- What the methods of `str` and the constructor `int` take from the interpreter. -/
structure TextRules where
  space : Char → Bool
  decimal : Char → Option Nat
  repr : String → String
  space_ascii : ∀ c : Char, c.toNat < 128 →
    space c = decide (9 ≤ c.toNat ∧ c.toNat ≤ 13 ∨ 28 ≤ c.toNat ∧ c.toNat ≤ 32)
  decimal_ascii : ∀ c : Char, c.toNat < 128 →
    decimal c = if c.isDigit then some (c.toNat - 48) else none

/-- The rules without their part beyond ASCII. -/
def TextRules.ascii : TextRules where
  space := fun c => decide (9 ≤ c.toNat ∧ c.toNat ≤ 13 ∨ 28 ≤ c.toNat ∧ c.toNat ≤ 32)
  decimal := fun c => if c.isDigit then some (c.toNat - 48) else none
  repr := fun text => "'" ++ text ++ "'"
  space_ascii := Redaction.CharClasses.ascii.space_ascii
  decimal_ascii := fun _ _ => rfl

def valueError (message : String) : Exc := .python "ValueError" message

namespace TextRules

variable (rules : TextRules)

/-- `text.split()`. -/
def split (text : List Char) : List (List Char) :=
  (text.splitOnP rules.space).filter fun part => !part.isEmpty

/-- `text.strip()`. -/
def strip (text : List Char) : List Char := (text.dropWhile rules.space).rdropWhile rules.space

/-- `text.split(sep, 1)` of a text that has the separator. -/
def cut (sep : Char) (text : List Char) : List Char × List Char :=
  (text.takeWhile (· ≠ sep), (text.dropWhile (· ≠ sep)).tail)

/-- Decimal digits, single underscores between them allowed. -/
def number (text : List Char) : Option Nat :=
  if (text.splitOn '_').any List.isEmpty then none
  else
    ((text.splitOn '_').flatten.mapM rules.decimal).map fun digits =>
      digits.foldl (fun value digit => 10 * value + digit) 0

/-- `int(text)`, without the interpreter's limit on the number of digits. -/
def int (text : List Char) : Except Exc Int :=
  let value : Option Int := match rules.strip text with
    | '+' :: digits => (rules.number digits).map fun n => (n : Int)
    | '-' :: digits => (rules.number digits).map fun n => -(n : Int)
    | digits => (rules.number digits).map fun n => (n : Int)
  match value with
  | some value => .ok value
  | none =>
      .error (valueError ("invalid literal for int() with base 10: " ++
        String.ofList ((rules.repr (String.ofList text)).toList.take 200)))

/-! ### The cron matcher -/

/-- The members of `range(start, stop, step)`, for a step other than zero. -/
def range (start stop step : Int) : List Int :=
  let length :=
    if 0 < step then (stop - start + step - 1) / step else (start - stop - step - 1) / (-step)
  (List.range length.toNat).map fun (i : Nat) => start + i * step

/-- What one part of a field adds to its values. -/
def parsePart (part : List Char) (lo hi : Int) : Except Exc (List Int) := do
  let (rng, step) ←
    if '/' ∈ part then do
      let step ← rules.int (cut '/' part).2
      pure ((cut '/' part).1, step)
    else pure (part, 1)
  let (first, last) ←
    if rng = ['*'] then pure (lo, hi)
    else if '-' ∈ rng then do
      let a ← rules.int (cut '-' rng).1
      let b ← rules.int (cut '-' rng).2
      pure (a, b)
    else do
      let value ← rules.int rng
      pure (value, value)
  if step = 0 then throw (valueError "range() arg 3 must not be zero")
  else return (range first (last + 1) step).filter fun v => lo ≤ v ∧ v ≤ hi

def parseParts (lo hi : Int) : List (List Char) → Except Exc (List Int)
  | [] => .ok []
  | part :: parts => do
      let values ← rules.parsePart part lo hi
      let others ← parseParts lo hi parts
      return values ++ others

/-- `_parse_field`, the set of values as a list of its members. -/
def parseField (field : List Char) (lo hi : Int) : Except Exc (List Int) :=
  rules.parseParts lo hi (field.splitOn ',')

def cronMatches (expr : String) (now : DateTime) : Except Exc Bool :=
  match rules.split expr.toList with
  | [minute, hour, dom, month, dow] => do
      let minutes ← rules.parseField minute 0 59
      if (now.minute : Int) ∉ minutes then return false
      else
        let hours ← rules.parseField hour 0 23
        if (now.hour : Int) ∉ hours then return false
        else
          let months ← rules.parseField month 1 12
          if (now.month : Int) ∉ months then return false
          else
            -- Python counts weekdays from Monday, cron from Sunday.
            let cronDow : Int := (now.weekday + 1) % 7
            let days ← rules.parseField dom 1 31
            let weekdays ← rules.parseField dow 0 6
            let domOk := decide ((now.day : Int) ∈ days)
            let dowOk := decide (cronDow ∈ weekdays)
            let domRestricted := decide (rules.strip dom ≠ ['*'])
            let dowRestricted := decide (rules.strip dow ≠ ['*'])
            if domRestricted && dowRestricted then return domOk || dowOk
            else if domRestricted then return domOk
            else if dowRestricted then return dowOk
            else return true
  | _ => .error (valueError ("cron expression must have 5 fields: " ++ rules.repr expr))

end TextRules

/-! ### The scheduler -/

structure Schedule where
  tenantId : String
  workflowName : String
  cron : String
  enabled : Bool := true
  id : String

def Schedule.messageId (s : Schedule) (slot : String) : String := "sched:" ++ s.id ++ ":" ++ slot

/-- The trigger of a schedule for one minute. -/
def Schedule.trigger (s : Schedule) (slot : String) : Trigger :=
  Dict.ofList [("source", .str "schedule"), ("schedule_id", .str s.id), ("fired_for", .str slot),
    ("message_id", .str (s.messageId slot))]

structure Scheduler where
  schedules : List Schedule

namespace Scheduler

variable (rules : TextRules)

def dueAmong (now : DateTime) : List Schedule → Except Exc (List Schedule)
  | [] => .ok []
  | s :: schedules => do
      let fires ← if s.enabled then rules.cronMatches s.cron now else pure false
      let others ← dueAmong now schedules
      return if fires then s :: others else others

def due (scheduler : Scheduler) (now : DateTime) : Except Exc (List Schedule) :=
  dueAmong rules now scheduler.schedules

variable {M : Type → Type} [Monad M] [MonadExceptOf Exc M] {α : Type}

/-- The loop of `tick` over the schedules that are due. -/
def fireAll (fire : Schedule → Trigger → M α) (slot : String) : List Schedule → M (List α)
  | [] => pure []
  | s :: schedules => do
      let run ← fire s (s.trigger slot)
      let runs ← fireAll fire slot schedules
      return run :: runs

def tick (scheduler : Scheduler) (now : DateTime) (fire : Schedule → Trigger → M α) : M (List α) :=
  match scheduler.due rules now with
  | .ok schedules => fireAll fire now.slot schedules
  | .error e => throw e

end Scheduler

/-! ### Replicas -/

/-- One call of `tick` by a replica, with what the firings find there: the workflow that is fired, a fresh
id, and the events that earlier runs have left in the engine of the tenant's orchestrator. -/
structure Tick where
  scheduler : Scheduler
  now : DateTime
  workflow : Schedule → Workflow
  runId : Schedule → String
  buffer : Schedule → List Event

namespace Tick

variable (rules : TextRules) (orchestrators : String → Deployment)

/-- `Orchestrator.fire` of the schedule's tenant. -/
def fire (t : Tick) (s : Schedule) (trigger : Trigger) : EngineM Run := do
  set (Mem.request s.tenantId (t.runId s) (t.buffer s))
  Orchestrator.fire (orchestrators s.tenantId) s.tenantId (t.runId s) (t.workflow s) trigger

def code (t : Tick) : EngineM (List Run) := t.scheduler.tick rules t.now (t.fire orchestrators)

def program (t : Tick) : Driver Unit := do
  let _ ← (t.code rules orchestrators).exec (Mem.request "" "" [])
  return ()

end Tick

/-- Interleavings of ticks over one database. -/
abbrev Replicas : Type := Pool Tick Call Call.Res DB

/-- A call of the driver of a tenant's run: it asks the policy engine of that tenant's orchestrator. -/
def Replicas.step (orchestrators : String → Deployment) (redact : Json → Json) (db : DB) (call : Call)
    (answer : call.Res) (db' : DB) : Prop :=
  call.step (orchestrators call.mem.run.tenantId).engine.policy redact db answer db'

abbrev Replicas.Run (rules : TextRules) (orchestrators : String → Deployment) (redact : Json → Json) :
    Replicas → List (Pool.Label Tick Call Call.Res) → Replicas → Prop :=
  Pool.Run (Replicas.step orchestrators redact) (Tick.program rules orchestrators) (fun _ _ => False)

/-- Play a schedule of ticks in a deterministic world. -/
def Replicas.play (rules : TextRules) (orchestrators : String → Deployment) (redact : Json → Json)
    (world : World) (moves : List (Pool.Move Tick)) (c : Replicas) :
    List (Pool.Label Tick Call Call.Res) × Replicas :=
  Pool.play
    (fun db call => call.op.serve (orchestrators call.mem.run.tenantId).engine.policy redact world db)
    (Tick.program rules orchestrators) moves c

theorem Replicas.play_run (rules : TextRules) (orchestrators : String → Deployment) (redact : Json → Json)
    (world : World) (moves : List (Pool.Move Tick)) (c : Replicas) :
    Replicas.Run rules orchestrators redact c
      (Replicas.play rules orchestrators redact world moves c).1
      (Replicas.play rules orchestrators redact world moves c).2 :=
  Pool.play_run (fun db call => call.op.serve_step _ redact world db) moves c

end Bass
