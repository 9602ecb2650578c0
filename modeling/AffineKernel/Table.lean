/-!
# Finite tables

A table is a finite partial map, kept as a list of entries in which the newest
entry of a key hides the older ones. Tables hold the bindings of nodes, the
storage of tensors, the scopes of a running block and the variables of a
script; they are small, and their equations are short.

The whole behaviour of a table is its look-up: `find?_insert` and `find?_erase`
say what each operation does to it.
-/

set_option autoImplicit false

namespace AffineKernel

universe u v

/-- A finite partial map from keys to values, newest entry first. -/
structure Table (κ : Type u) (α : Type v) where
  /-- The entries, newest first. -/
  entries : List (κ × α)

namespace Table

variable {κ : Type u} {α : Type v}

/-- The table without entries. -/
def empty : Table κ α := ⟨[]⟩

instance : Inhabited (Table κ α) := ⟨empty⟩

variable [DecidableEq κ]

/-- The value stored under a key. -/
def find? (table : Table κ α) (key : κ) : Option α :=
  (table.entries.find? (fun entry => entry.1 = key)).map Prod.snd

/-- The table that holds `value` under `key` and is otherwise unchanged. -/
def insert (table : Table κ α) (key : κ) (value : α) : Table κ α :=
  ⟨(key, value) :: table.entries⟩

/-- The table that holds nothing under `key` and is otherwise unchanged. -/
def erase (table : Table κ α) (key : κ) : Table κ α :=
  ⟨table.entries.filter (fun entry => entry.1 ≠ key)⟩

/-- Removes every key of a list. -/
def eraseAll (table : Table κ α) (keys : List κ) : Table κ α :=
  keys.foldl erase table

@[simp]
theorem find?_empty (key : κ) : (empty : Table κ α).find? key = none := rfl

/-- A look-up after an insertion finds the new value, or what was there. -/
theorem find?_insert (table : Table κ α) (key other : κ) (value : α) :
    (table.insert key value).find? other =
      if key = other then some value else table.find? other := by
  by_cases same : key = other <;> simp [find?, insert, same]

/-- A look-up after an erasure finds nothing, or what was there. -/
theorem find?_erase (table : Table κ α) (key other : κ) :
    (table.erase key).find? other = if key = other then none else table.find? other := by
  obtain ⟨entries⟩ := table
  simp only [find?, erase]
  induction entries with
  | nil => simp
  | cons entry rest ih =>
      by_cases removed : entry.1 = key
      · by_cases same : key = other <;> simp_all
      · by_cases found : entry.1 = other
        · have different : ¬ key = other := fun equal => removed (found.trans equal.symm)
          simp_all
        · simp_all

/-- Erasing keys leaves the others as they were. -/
theorem find?_eraseAll (table : Table κ α) (keys : List κ) (key : κ) :
    (table.eraseAll keys).find? key = if key ∈ keys then none else table.find? key := by
  induction keys generalizing table with
  | nil => simp [eraseAll]
  | cons first rest ih =>
      have step : table.eraseAll (first :: rest) = (table.erase first).eraseAll rest := rfl
      rw [step, ih, find?_erase]
      by_cases later : key ∈ rest
      · simp [later]
      · by_cases same : first = key
        · simp [same]
        · have swapped : ¬ key = first := fun equal => same equal.symm
          simp [later, same, swapped]

end Table

end AffineKernel
