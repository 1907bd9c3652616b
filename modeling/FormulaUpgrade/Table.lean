/-! # Tables in order of insertion

A table keeps the first place of every key and the last value written to it.
-/

namespace FormulaUpgrade

namespace Table

variable {κ α β : Type} [DecidableEq κ]

/-- Writes a value into a list of entries: in the key's place if it has one, at the end otherwise. -/
def write (key : κ) (value : α) : List (κ × α) → List (κ × α)
  | [] => [(key, value)]
  | (k, v) :: rest => if k = key then (key, value) :: rest else (k, v) :: write key value rest

theorem mem_keys_write (key k : κ) (value : α) (entries : List (κ × α)) :
    k ∈ (write key value entries).map Prod.fst ↔ k = key ∨ k ∈ entries.map Prod.fst := by
  induction entries with
  | nil => simp [write]
  | cons entry rest ih =>
      obtain ⟨k', v⟩ := entry
      by_cases h : k' = key
      · simp [write, h]
      · simp only [write, h, if_false, List.map_cons, List.mem_cons, ih]
        grind

theorem nodup_keys_write (key : κ) (value : α) {entries : List (κ × α)}
    (h : (entries.map Prod.fst).Nodup) : ((write key value entries).map Prod.fst).Nodup := by
  induction entries with
  | nil => simp [write]
  | cons entry rest ih =>
      obtain ⟨k, v⟩ := entry
      simp only [List.map_cons, List.nodup_cons] at h
      by_cases hk : k = key
      · subst hk
        simpa [write] using h
      · simp only [write, hk, if_false, List.map_cons, List.nodup_cons, mem_keys_write]
        exact ⟨by simp [h.1], ih h.2⟩

end Table

structure Table (κ α : Type) where
  entries : List (κ × α)
  nodup_keys : (entries.map Prod.fst).Nodup

namespace Table

variable {κ α β : Type}

def empty : Table κ α :=
  ⟨[], by simp⟩

instance : Inhabited (Table κ α) :=
  ⟨empty⟩

def keys (t : Table κ α) : List κ :=
  t.entries.map Prod.fst

def size (t : Table κ α) : Nat :=
  t.entries.length

/-- Changes every value and keeps the keys. -/
def map (f : α → β) (t : Table κ α) : Table κ β :=
  ⟨t.entries.map fun (k, v) => (k, f v), by
    simpa [List.map_map, Function.comp_def] using t.nodup_keys⟩

variable [DecidableEq κ]

def get? (t : Table κ α) (key : κ) : Option α :=
  (t.entries.find? fun entry => entry.1 = key).map Prod.snd

def insert (t : Table κ α) (key : κ) (value : α) : Table κ α :=
  ⟨write key value t.entries, nodup_keys_write key value t.nodup_keys⟩

/-- Writes entries one after the other. -/
def insertAll (t : Table κ α) (entries : List (κ × α)) : Table κ α :=
  entries.foldl (fun t (k, v) => t.insert k v) t

def ofList (entries : List (κ × α)) : Table κ α :=
  empty.insertAll entries

/-- Writes the entries of a second table over the first. -/
def update (t u : Table κ α) : Table κ α :=
  t.insertAll u.entries

theorem get?_insert (t : Table κ α) (key k : κ) (value : α) :
    (t.insert key value).get? k = if k = key then some value else t.get? k := by
  obtain ⟨entries, h⟩ := t
  simp only [get?, insert]
  clear h
  induction entries with
  | nil => grind [write]
  | cons entry rest ih =>
      obtain ⟨k', v⟩ := entry
      by_cases hk : k' = key
      · subst hk
        by_cases hkk : k = k' <;> grind [write]
      · by_cases hkk : k' = k <;> grind [write]

end Table

end FormulaUpgrade
