import Mathlib.Data.List.Nodup
import Mathlib.Data.List.Forall2

/-!
# Keyed tables and ordered dictionaries

A `Table` is a list of rows in insertion order with a primary key: no two rows share one. Its
operations are the statements a relational store issues: look a row up, insert unless the key is
taken, update in place. A `Dict` is a table of pairs, that is an insertion-ordered dictionary.
-/

structure Table {κ ρ : Type} (key : ρ → κ) where
  rows : List ρ
  nodup : (rows.map key).Nodup

namespace Table

variable {κ ρ : Type} {key : ρ → κ}

def empty : Table key := ⟨[], List.nodup_nil⟩

theorem rows_injective : Function.Injective (rows : Table key → List ρ) := by
  rintro ⟨rows, _⟩ ⟨_, _⟩ rfl
  rfl

variable [DecidableEq κ]

def find? (t : Table key) (k : κ) : Option ρ := t.rows.find? fun r => key r = k

theorem key_of_find? {t : Table key} {k : κ} {r : ρ} (h : t.find? k = some r) : key r = k := by
  simpa using List.find?_some h

theorem mem_of_find? {t : Table key} {k : κ} {r : ρ} (h : t.find? k = some r) : r ∈ t.rows :=
  List.mem_of_find?_eq_some h

theorem find?_eq_none {t : Table key} {k : κ} : t.find? k = none ↔ ∀ r ∈ t.rows, key r ≠ k := by
  simp [find?]

theorem find?_of_mem {t : Table key} {r : ρ} (h : r ∈ t.rows) : t.find? (key r) = some r := by
  cases hfind : t.find? (key r) with
  | none => exact absurd rfl (find?_eq_none.mp hfind r h)
  | some r' =>
      have hinj := List.inj_on_of_nodup_map t.nodup
      rw [hinj (mem_of_find? hfind) h (key_of_find? hfind)]

/-- A look-up by the key and a condition on the row is a look-up by the key. -/
theorem find?_and (t : Table key) (k : κ) (p : ρ → Bool) :
    t.rows.find? (fun r => decide (key r = k) && p r) = (t.find? k).filter p := by
  cases h : t.rows.find? (fun r => decide (key r = k) && p r) with
  | some r =>
      have hr := List.find?_some h
      rw [Bool.and_eq_true, decide_eq_true_eq] at hr
      have hfind := find?_of_mem (List.mem_of_find?_eq_some h)
      rw [hr.1] at hfind
      rw [hfind, Option.filter_some_pos hr.2]
  | none =>
      cases hfind : t.find? k with
      | none => rfl
      | some r =>
          have hnot := List.find?_eq_none.mp h r (mem_of_find? hfind)
          rw [key_of_find? hfind, decide_eq_true rfl, Bool.true_and] at hnot
          simp [Option.filter, hnot]

/-- Insert a row unless its key is taken. -/
def insert (t : Table key) (r : ρ) : Table key :=
  if h : t.find? (key r) = none then
    { rows := t.rows ++ [r]
      nodup := by
        rw [List.map_append, List.nodup_append]
        refine ⟨t.nodup, by simp, ?_⟩
        intro k hk k' hk' heq
        obtain ⟨r', hr', rfl⟩ := List.mem_map.mp hk
        rw [List.map_singleton, List.mem_singleton] at hk'
        exact find?_eq_none.mp h r' hr' (heq.trans hk') }
  else t

theorem insert_of_none {t : Table key} {r : ρ} (h : t.find? (key r) = none) :
    (t.insert r).rows = t.rows ++ [r] := by
  simp [insert, h]

theorem insert_of_some {t : Table key} {r r' : ρ} (h : t.find? (key r) = some r') :
    t.insert r = t := by
  simp [insert, h]

theorem find?_insert_self (t : Table key) (r : ρ) :
    (t.insert r).find? (key r) = some ((t.find? (key r)).getD r) := by
  cases h : t.find? (key r) with
  | none =>
      rw [find?, insert_of_none h, List.find?_append]
      rw [find?] at h
      simp [h]
  | some r' => rw [insert_of_some h, h, Option.getD_some]

theorem find?_insert_of_ne (t : Table key) {r : ρ} {k : κ} (hne : key r ≠ k) :
    (t.insert r).find? k = t.find? k := by
  cases h : t.find? (key r) with
  | none =>
      rw [find?, insert_of_none h, List.find?_append]
      simp [find?, hne]
  | some r' => rw [insert_of_some h]

/-- A row that is there stays there, as it is, when another is inserted. -/
theorem find?_insert_of_some {t : Table key} {k : κ} {row : ρ} (r : ρ)
    (h : t.find? k = some row) : (t.insert r).find? k = some row := by
  by_cases hk : key r = k
  · subst hk
    rw [find?_insert_self, h, Option.getD_some]
  · rw [find?_insert_of_ne t hk, h]

theorem mem_insert {t : Table key} {r r' : ρ} (h : r' ∈ (t.insert r).rows) :
    r' ∈ t.rows ∨ r' = r := by
  cases hfind : t.find? (key r) with
  | none =>
      rw [insert_of_none hfind] at h
      simpa using h
  | some _ =>
      rw [insert_of_some hfind] at h
      exact Or.inl h

/-- Update in place the rows that satisfy `p`; the update may not touch the key. -/
def update (t : Table key) (p : ρ → Bool) (f : ρ → ρ) (hf : ∀ r, key (f r) = key r) :
    Table key :=
  { rows := t.rows.map fun r => if p r then f r else r
    nodup := by
      have hkeys : key ∘ (fun r => if p r then f r else r) = key := by
        funext r
        by_cases hp : p r <;> simp [hp, hf]
      rw [List.map_map, hkeys]
      exact t.nodup }

theorem find?_update (t : Table key) (p : ρ → Bool) (f : ρ → ρ) (hf : ∀ r, key (f r) = key r)
    (k : κ) :
    (t.update p f hf).find? k = (t.find? k).map fun r => if p r then f r else r := by
  have hkeys : (fun r => decide (key r = k)) ∘ (fun r => if p r then f r else r) =
      fun r => decide (key r = k) := by
    funext r
    by_cases hp : p r <;> simp [hp, hf]
  unfold find? update
  rw [List.find?_map, hkeys]

/-- Keep the rows whose key satisfies `p`. -/
def filter (t : Table key) (p : κ → Bool) : Table key :=
  { rows := t.rows.filter fun r => p (key r)
    nodup := t.nodup.sublist (List.filter_sublist.map key) }

theorem find?_filter (t : Table key) (p : κ → Bool) (k : κ) :
    (t.filter p).find? k = if p k then t.find? k else none := by
  unfold find? filter
  rw [List.find?_filter]
  by_cases hk : p k = true
  · rw [if_pos hk]
    congr 1
    funext r
    by_cases heq : key r = k <;> simp [heq, hk]
  · rw [if_neg hk, List.find?_eq_none]
    intro r _
    by_cases heq : key r = k <;> simp [heq, hk]

omit [DecidableEq κ] in
theorem mem_update {t : Table key} {p : ρ → Bool} {f : ρ → ρ} {hf : ∀ r, key (f r) = key r}
    {r : ρ} : r ∈ (t.update p f hf).rows ↔ ∃ r₀ ∈ t.rows, (if p r₀ then f r₀ else r₀) = r :=
  List.mem_map

end Table

/-- A dictionary in insertion order. -/
abbrev Dict (κ ν : Type) : Type := Table (Prod.fst : κ × ν → κ)

namespace Dict

variable {κ ν : Type} [DecidableEq κ]

def get? (d : Dict κ ν) (k : κ) : Option ν := (d.find? k).map Prod.snd

/-- Assign a value, in place when the key is there and at the end when it is not. -/
def set (d : Dict κ ν) (k : κ) (v : ν) : Dict κ ν :=
  (d.update (fun entry => entry.1 = k) (fun entry => (entry.1, v)) fun _ => rfl).insert (k, v)

def ofList (entries : List (κ × ν)) : Dict κ ν :=
  entries.foldl (fun d entry => set d entry.1 entry.2) Table.empty

@[simp] theorem get?_empty (k : κ) : get? (Table.empty : Dict κ ν) k = none := rfl

theorem get?_set_self (d : Dict κ ν) (k : κ) (v : ν) : (set d k v).get? k = some v := by
  have hself := Table.find?_insert_self
    (d.update (fun entry => entry.1 = k) (fun entry => (entry.1, v)) fun _ => rfl) (k, v)
  rw [get?, set, hself, Table.find?_update]
  cases h : d.find? k with
  | none => simp
  | some entry => simp [Table.key_of_find? h]

theorem get?_filter (d : Dict κ ν) (p : κ → Bool) (k : κ) :
    get? (d.filter p) k = if p k then d.get? k else none := by
  rw [get?, Table.find?_filter]
  by_cases hk : p k = true <;> simp [hk, get?]

theorem get?_set_of_ne (d : Dict κ ν) {k k' : κ} (v : ν) (hne : k ≠ k') :
    (set d k v).get? k' = d.get? k' := by
  rw [get?, set, Table.find?_insert_of_ne _ (by simpa using hne), Table.find?_update, get?]
  cases h : d.find? k' with
  | none => simp
  | some entry =>
      have hk' : entry.1 = k' := Table.key_of_find? h
      have : entry.1 ≠ k := fun heq => hne (heq.symm.trans hk')
      simp [this]

theorem rows_set_of_none {d : Dict κ ν} {k : κ} {v : ν} (h : d.get? k = none) :
    (set d k v).rows = d.rows ++ [(k, v)] := by
  have hfind : d.find? k = none := Option.map_eq_none_iff.mp h
  have hupdate : (d.update (fun entry => entry.1 = k) (fun entry => (entry.1, v)) fun _ => rfl).find? k =
      none := by
    rw [Table.find?_update, hfind, Option.map_none]
  have hrows : (d.update (fun entry => entry.1 = k) (fun entry => (entry.1, v)) fun _ => rfl).rows =
      d.rows := by
    refine (List.map_congr_left fun entry hentry => ?_).trans (List.map_id d.rows)
    have hne : entry.1 ≠ k := Table.find?_eq_none.mp hfind entry hentry
    simp [hne]
  rw [set, Table.insert_of_none hupdate, hrows]

/-! ### Dictionaries with corresponding values -/

/-- The same keys in the same order, with values that `V` relates under each of them. -/
def Rel {ν' : Type} (V : κ → ν → ν' → Prop) (d : Dict κ ν) (d' : Dict κ ν') : Prop :=
  List.Forall₂ (fun entry entry' => entry.1 = entry'.1 ∧ V entry.1 entry.2 entry'.2) d.rows d'.rows

end Dict
