/-! # Tables

A table maps keys to values and remembers the order in which its keys were first entered. -/

namespace OverrideElision

/-- Entries in the order in which their keys came, each key once. -/
structure Table (κ α : Type) where
  entries : List (κ × α)
  keys_nodup : (entries.map Prod.fst).Nodup

namespace Table

variable {κ α : Type}

/-- The table without entries. -/
def empty : Table κ α := ⟨[], .nil⟩

instance : EmptyCollection (Table κ α) := ⟨empty⟩

instance : Inhabited (Table κ α) := ⟨empty⟩

/-- The keys in the order in which they came. -/
def keys (table : Table κ α) : List κ := table.entries.map Prod.fst

@[ext]
theorem ext {a b : Table κ α} (h : a.entries = b.entries) : a = b := by
  cases a; cases b; simp only [mk.injEq]; exact h

variable [DecidableEq κ]

/-- The value under a key. -/
def get? (table : Table κ α) (key : κ) : Option α :=
  table.entries.lookup key

/-- Entries in which `key` has the value that `change` makes of the one it had, in its old place, or
at the end when it had none. -/
def alterIn (key : κ) (change : Option α → α) : List (κ × α) → List (κ × α)
  | [] => [(key, change none)]
  | (k, v) :: rest =>
    if k = key then (k, change (some v)) :: rest else (k, v) :: alterIn key change rest

theorem keys_alterIn (key : κ) (change : Option α → α) (entries : List (κ × α)) :
    (alterIn key change entries).map Prod.fst =
      if key ∈ entries.map Prod.fst then entries.map Prod.fst
      else entries.map Prod.fst ++ [key] := by
  induction entries with
  | nil => simp [alterIn]
  | cons entry rest ih =>
    obtain ⟨k, v⟩ := entry
    unfold alterIn
    by_cases hk : k = key
    · simp [hk]
    · by_cases hmem : key ∈ rest.map Prod.fst
      · simp only [if_neg hk, List.map_cons, ih, if_pos hmem]
        rw [if_pos (List.mem_cons_of_mem _ hmem)]
      · have hnot : ¬ key ∈ k :: rest.map Prod.fst := by
          simp only [List.mem_cons, not_or]
          exact ⟨Ne.symm hk, hmem⟩
        simp only [if_neg hk, List.map_cons, ih, if_neg hmem]
        rw [if_neg hnot, List.cons_append]

omit [DecidableEq κ] in
theorem nodup_append_singleton {x : κ} {keys : List κ} (h : keys.Nodup) (hx : ¬ x ∈ keys) :
    (keys ++ [x]).Nodup := by
  refine List.nodup_append.mpr ⟨h, by simp, ?_⟩
  intro a ha b hb hab
  rw [List.mem_singleton] at hb
  exact hx (hb ▸ hab ▸ ha)

theorem nodup_alterIn {key : κ} {change : Option α → α} {entries : List (κ × α)}
    (h : (entries.map Prod.fst).Nodup) : ((alterIn key change entries).map Prod.fst).Nodup := by
  rw [keys_alterIn]
  split
  · exact h
  · rename_i hnot
    exact nodup_append_singleton h hnot

theorem lookup_alterIn (key x : κ) (change : Option α → α) (entries : List (κ × α)) :
    (alterIn key change entries).lookup x =
      if x = key then some (change (entries.lookup key)) else entries.lookup x := by
  have hbeq (a b : κ) : (a == b) = decide (a = b) := by by_cases h : a = b <;> simp [h]
  induction entries with
  | nil => by_cases hx : x = key <;> simp [alterIn, List.lookup_cons, hx, hbeq]
  | cons entry rest ih =>
    obtain ⟨k, v⟩ := entry
    unfold alterIn
    by_cases hk : k = key
    · subst hk
      by_cases hx : x = k <;> simp [List.lookup_cons, hx, hbeq]
    · by_cases hx : x = k
      · subst hx
        simp [hk]
      · simp [hk, List.lookup_cons, ih, hx, Ne.symm hk, hbeq]

/-- The table in which `key` has the value that `change` makes of the one it had. -/
def alter (table : Table κ α) (key : κ) (change : Option α → α) : Table κ α :=
  ⟨alterIn key change table.entries, nodup_alterIn table.keys_nodup⟩

/-- The table with `value` under `key`. -/
def insert (table : Table κ α) (key : κ) (value : α) : Table κ α :=
  table.alter key fun _ => value

/-- The table with the given entries, of which a later one replaces an earlier one of its key. -/
def ofList (entries : List (κ × α)) : Table κ α :=
  entries.foldl (fun table (key, value) => table.insert key value) empty

/-- The items under a key; none when it has no entry. -/
def itemsAt (table : Table κ (List α)) (key : κ) : List α :=
  (table.get? key).getD []

/-- The table with one more item under a key, after those it has. -/
def push (table : Table κ (List α)) (key : κ) (item : α) : Table κ (List α) :=
  table.alter key fun items => items.getD [] ++ [item]

omit [DecidableEq κ] in
/-- The entries whose value satisfies `p`. -/
def filter (table : Table κ α) (p : α → Bool) : Table κ α :=
  ⟨table.entries.filter fun entry => p entry.2,
    ((List.filter_sublist).map Prod.fst).nodup table.keys_nodup⟩

@[simp]
theorem get?_alter (table : Table κ α) (key x : κ) (change : Option α → α) :
    (table.alter key change).get? x =
      if x = key then some (change (table.get? key)) else table.get? x :=
  lookup_alterIn ..

@[simp]
theorem get?_insert (table : Table κ α) (key x : κ) (value : α) :
    (table.insert key value).get? x = if x = key then some value else table.get? x :=
  get?_alter ..

@[simp]
theorem itemsAt_push (table : Table κ (List α)) (key x : κ) (item : α) :
    (table.push key item).itemsAt x =
      if x = key then table.itemsAt x ++ [item] else table.itemsAt x := by
  by_cases hx : x = key <;> simp [itemsAt, push, hx]

theorem keys_alter (table : Table κ α) (key : κ) (change : Option α → α) :
    (table.alter key change).keys =
      if key ∈ table.keys then table.keys else table.keys ++ [key] :=
  keys_alterIn ..

end Table

end OverrideElision
