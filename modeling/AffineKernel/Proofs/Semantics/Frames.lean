import AffineKernel.Semantics.Machine

/-!
# Frames

What a look-up in a frame finds after a value was defined or a block was
entered. The scope of a block pairs its arguments with their data, so the facts
about it are facts about tables that pair two lists.

A property of the data of a frame, in every scope of it, is kept when a value is
defined by a datum that has it, and when a block is entered with such data
(`Frame.Holds`).
-/

set_option autoImplicit false

namespace AffineKernel

namespace Table

variable {κ α : Type} [DecidableEq κ] {keys : List κ} {values : List α} {key : κ} {a : α}

/-- A key is found with the value in its place. -/
theorem find?_zip (distinct : keys.Nodup) {position : Nat} (listed : keys[position]? = some key)
    (given : values[position]? = some a) : Table.find? ⟨keys.zip values⟩ key = some a := by
  induction keys generalizing values position with
  | nil => cases listed
  | cons first rest ih =>
      cases values with
      | nil => cases given
      | cons head tail =>
          rw [List.nodup_cons] at distinct
          cases position with
          | zero =>
              cases listed
              cases given
              simp [find?]
          | succ position =>
              have later := ih distinct.2 listed given
              have different : first ≠ key := fun same =>
                distinct.1 (same ▸ List.mem_of_getElem? listed)
              simpa [find?, different] using later

/-- What is found is in the place of its key. -/
theorem exists_of_find?_zip (found : Table.find? ⟨keys.zip values⟩ key = some a) :
    ∃ position : Nat, keys[position]? = some key ∧ values[position]? = some a := by
  induction keys generalizing values with
  | nil => cases found
  | cons first rest ih =>
      cases values with
      | nil => cases found
      | cons head tail =>
          by_cases same : first = key
          · have first : head = a := by simpa [find?, same] using found
            exact ⟨0, congrArg some same, congrArg some first⟩
          · have later : Table.find? ⟨rest.zip tail⟩ key = some a := by
              simpa [find?, same] using found
            obtain ⟨position, listed, given⟩ := ih later
            exact ⟨position + 1, listed, given⟩

end Table

namespace Frame

variable {frame : Frame} {value other : Value} {datum : Datum}

/-- Something was entered where a value is found. -/
theorem ne_nil_of_find? (found : frame.find? value = some datum) : frame ≠ [] := by
  rintro rfl
  cases found

/-- A value that was just defined. -/
theorem find?_define_self (entered : frame ≠ []) :
    (frame.define value datum).find? value = some datum := by
  cases frame with
  | nil => exact absurd rfl entered
  | cons scope outer => simp [define, find?, Table.find?_insert]

/-- Defining a value leaves the others alone. -/
theorem find?_define_of_ne (different : value ≠ other) :
    (frame.define value datum).find? other = frame.find? other := by
  cases frame with
  | nil => rfl
  | cons scope outer =>
      simp only [define, find?, List.findSome?_cons, Table.find?_insert, if_neg different]

theorem define_ne_nil (entered : frame ≠ []) : frame.define value datum ≠ [] := by
  cases frame with
  | nil => exact absurd rfl entered
  | cons scope outer => simp [define]

/-- An argument of the block that was entered. -/
theorem find?_enter_arg {block : BlockId} {args : List Datum} {position : Nat}
    (given : args[position]? = some datum) :
    (frame.enter block args).find? (.arg block position) = some datum := by
  have small : position < args.length := (List.getElem?_eq_some_iff.mp given).1
  have distinct : ((List.range args.length).map (Value.arg block)).Nodup :=
    List.Pairwise.map _ (fun _ _ different same => different (Value.arg.inj same).2)
      List.nodup_range
  have listed : ((List.range args.length).map (Value.arg block))[position]? =
      some (.arg block position) := by
    simp [small]
  have found := Table.find?_zip distinct listed given
  simp [enter, find?, found]

/-- Entering a block leaves the values of other blocks alone. -/
theorem find?_enter_of_ne {block : BlockId} {args : List Datum}
    (different : ∀ position, value ≠ .arg block position) :
    (frame.enter block args).find? value = frame.find? value := by
  have absent : Table.find? ⟨((List.range args.length).map (Value.arg block)).zip args⟩ value =
      none := by
    cases found : Table.find? ⟨((List.range args.length).map (Value.arg block)).zip args⟩ value with
    | none => rfl
    | some datum =>
        obtain ⟨position, listed, -⟩ := Table.exists_of_find?_zip found
        simp only [List.getElem?_map, Option.map_eq_some_iff] at listed
        obtain ⟨place, -, same⟩ := listed
        exact absurd same.symm (different place)
  simp [enter, find?, absent]

/-! ## All data of a frame -/

/-- All data of a frame are good for their values, in every scope. -/
def Holds (good : Value → Datum → Prop) (frame : Frame) : Prop :=
  ∀ scope ∈ frame, ∀ value datum, Table.find? scope value = some datum → good value datum

namespace Holds

variable {good better : Value → Datum → Prop}

theorem mono (holds : frame.Holds good) (implied : ∀ value datum, good value datum →
    better value datum) : frame.Holds better :=
  fun scope listed value datum found => implied value datum (holds scope listed value datum found)

theorem find (holds : frame.Holds good) (found : frame.find? value = some datum) :
    good value datum := by
  obtain ⟨scope, listed, found⟩ := List.exists_of_findSome?_eq_some found
  exact holds scope listed value datum found

theorem define (holds : frame.Holds good) (new : good value datum) :
    (frame.define value datum).Holds good := by
  cases frame with
  | nil => exact holds
  | cons scope outer =>
      intro inner listed other found looked
      rcases List.mem_cons.mp listed with rfl | rest
      · rw [Table.find?_insert] at looked
        by_cases same : value = other
        · rw [if_pos same] at looked
          cases looked
          exact same ▸ new
        · rw [if_neg same] at looked
          exact holds scope List.mem_cons_self other found looked
      · exact holds inner (List.mem_cons_of_mem scope rest) other found looked

theorem enter (holds : frame.Holds good) {block : BlockId} {args : List Datum}
    (given : ∀ (position : Nat) (datum : Datum), args[position]? = some datum →
      good (.arg block position) datum) : (frame.enter block args).Holds good := by
  intro scope inside value datum looked
  rcases List.mem_cons.mp inside with rfl | outer
  · obtain ⟨position, key, given'⟩ := Table.exists_of_find?_zip looked
    rw [List.getElem?_map] at key
    obtain ⟨number, ranged, rfl⟩ := Option.map_eq_some_iff.mp key
    obtain ⟨-, rfl⟩ := List.getElem?_eq_some_iff.mp ranged
    rw [List.getElem_range]
    exact given position datum given'
  · exact holds scope outer value datum looked

end Holds

end Frame

end AffineKernel
