/-
This file holds the members of an object as a list of named values. Members keep the place at
which their name was first given, and a name given again replaces the value at that place. The
operations are on plain lists, so that a recursive type can hold its members directly.
-/

namespace StackSynth.Fields

variable {ν μ : Type}

/-- The value under `name`. -/
def get? (name : String) : List (String × ν) → Option ν
  | [] => none
  | field :: rest => if field.1 = name then some field.2 else get? name rest

/-- Whether there is a value under `name`. -/
def has (name : String) (fields : List (String × ν)) : Bool := (get? name fields).isSome

/-- The members with `value` under `name`: in place of the value there, else at the end. -/
def set (name : String) (value : ν) : List (String × ν) → List (String × ν)
  | [] => [(name, value)]
  | field :: rest => if field.1 = name then (name, value) :: rest else field :: set name value rest

/-- The members that a sequence of assignments leaves. -/
def ofList (assignments : List (String × ν)) : List (String × ν) :=
  assignments.foldl (fun fields assignment => set assignment.1 assignment.2 fields) []

/-- The names in order. -/
def names (fields : List (String × ν)) : List String := fields.map (·.1)

theorem get?_set (name other : String) (value : ν) (fields : List (String × ν)) :
    get? other (set name value fields) =
      if other = name then some value else get? other fields := by
  induction fields with
  | nil =>
    simp only [set, get?]
    by_cases same : name = other
    · simp [same]
    · simp [same, Ne.symm same]
  | cons field rest inductionHypothesis =>
    simp only [set]
    by_cases atHead : field.1 = name
    · by_cases same : name = other
      · simp [get?, atHead, same]
      · simp [get?, atHead, same, Ne.symm same]
    · by_cases same : field.1 = other
      · have apart : other ≠ name := same ▸ atHead
        simp [get?, same, apart]
      · simp [get?, atHead, same, inductionHypothesis]

end StackSynth.Fields
