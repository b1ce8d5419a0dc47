/-!
# Ordered fields

A finite map from names to values that remembers the order in which its names first appeared.
Assigning to a name that is already present keeps the position of the name and replaces its value;
assigning to a new name appends it.  Merging assigns every entry of the right operand in turn; it
is associative, and the empty map is its unit.
-/

namespace DesignTokens

/-- Entries in insertion order. -/
abbrev Fields (α : Type) := List (String × α)

namespace Fields

variable {α : Type}

/-- The value of the first entry called `key`. -/
def get? : Fields α → String → Option α
  | [], _ => none
  | (name, value) :: rest, key => if name = key then some value else get? rest key

/-- The names in order. -/
def keys (fields : Fields α) : List String := fields.map Prod.fst

/-- The values in order. -/
def values (fields : Fields α) : List α := fields.map Prod.snd

/-- Whether some entry is called `key`. -/
def has (fields : Fields α) (key : String) : Bool := fields.any fun entry => entry.1 = key

/-- Assign `value` to `key`, in place if the name is present and at the end otherwise. -/
def put : Fields α → String → α → Fields α
  | [], key, value => [(key, value)]
  | (name, old) :: rest, key, value =>
      if name = key then (name, value) :: rest else (name, old) :: put rest key value

/-- Assign every entry of `right` to `left`. -/
def merge (left right : Fields α) : Fields α :=
  (left.map fun entry => (entry.1, (right.get? entry.1).getD entry.2)) ++
    right.filter fun entry => !left.has entry.1

/-- Assign the entries of a list one after another, so that a repeated name keeps its first
position and takes its last value. -/
def ofList (entries : List (String × α)) : Fields α :=
  entries.foldl (fun fields entry => fields.put entry.1 entry.2) []

/-- Remove the entries with the given names. -/
def without (fields : Fields α) (names : List String) : Fields α :=
  fields.filter fun entry => !names.contains entry.1

/-- Keep the entries that have a value. -/
def present (fields : Fields (Option α)) : Fields α :=
  fields.filterMap fun entry => entry.2.map fun value => (entry.1, value)

@[simp]
theorem has_nil (key : String) : has ([] : Fields α) key = false := rfl

@[simp]
theorem has_cons (entry : String × α) (fields : Fields α) (key : String) :
    has (entry :: fields) key = (decide (entry.1 = key) || has fields key) := rfl

@[simp]
theorem has_append (left right : Fields α) (key : String) :
    has (left ++ right) key = (has left key || has right key) := by
  simp [has]

theorem get?_append (left right : Fields α) (key : String) :
    get? (left ++ right) key = (get? left key).or (get? right key) := by
  induction left with
  | nil => simp [get?]
  | cons entry rest ih =>
      by_cases same : entry.1 = key <;> simp_all [get?]

theorem get?_eq_none_iff (fields : Fields α) (key : String) :
    get? fields key = none ↔ has fields key = false := by
  induction fields with
  | nil => simp [get?]
  | cons entry rest ih =>
      by_cases same : entry.1 = key <;> simp_all [get?]

@[simp]
theorem merge_nil (left : Fields α) : merge left [] = left := by
  simp [merge, get?]

@[simp]
theorem nil_merge (right : Fields α) : merge [] right = right := by
  simp [merge]

theorem has_put (fields : Fields α) (key : String) (value : α) (name : String) :
    has (put fields key value) name = (has fields name || decide (key = name)) := by
  induction fields with
  | nil => simp [put]
  | cons entry rest ih =>
      by_cases same : entry.1 = key
      · subst same
        by_cases found : entry.1 = name <;> simp [put, found]
      · simp [put, same, ih, Bool.or_assoc]

/-! ## Merging -/

theorem has_map (fields : Fields α) (f : String × α → α) (key : String) :
    has (fields.map fun entry => (entry.1, f entry)) key = has fields key := by
  induction fields with
  | nil => rfl
  | cons entry rest ih => simp [ih]

theorem has_filter_not (left right : Fields α) (key : String) :
    has (right.filter fun entry => !has left entry.1) key =
      (!has left key && has right key) := by
  induction right with
  | nil => simp
  | cons entry rest ih =>
      by_cases same : entry.1 = key
      · subst same
        by_cases known : has left entry.1 = true <;> simp_all
      · by_cases known : has left entry.1 = true <;> simp_all

theorem has_merge (left right : Fields α) (key : String) :
    has (merge left right) key = (has left key || has right key) := by
  rw [merge, has_append, has_map, has_filter_not]
  cases has left key <;> simp

theorem get?_filter_not (left right : Fields α) (key : String) (absent : has left key = false) :
    get? (right.filter fun entry => !has left entry.1) key = get? right key := by
  induction right with
  | nil => rfl
  | cons entry rest ih =>
      by_cases same : entry.1 = key
      · subst same
        simp [get?, absent]
      · by_cases known : has left entry.1 = true <;> simp [get?, known, same, ih]

theorem get?_update (left right : Fields α) (key : String) (present : has left key = true) :
    get? (left.map fun entry => (entry.1, (get? right entry.1).getD entry.2)) key =
      (get? right key).or (get? left key) := by
  induction left with
  | nil => simp at present
  | cons entry rest ih =>
      by_cases same : entry.1 = key
      · subst same
        simp only [List.map_cons, get?, if_true]
        cases get? right entry.1 <;> rfl
      · simp_all [get?]

theorem get?_merge (left right : Fields α) (key : String) :
    get? (merge left right) key = (get? right key).or (get? left key) := by
  rw [merge, get?_append]
  cases present : has left key with
  | false =>
      rw [get?_filter_not left right key present, (get?_eq_none_iff left key).2 present,
        (get?_eq_none_iff _ key).2 (by rw [has_map, present])]
      simp
  | true =>
      rw [get?_update left right key present]
      cases value : get? left key with
      | none => simp [(get?_eq_none_iff left key).1 value] at present
      | some value => cases get? right key <;> rfl

/-- Assigning is associative. -/
theorem merge_assoc (first second third : Fields α) :
    merge (merge first second) third = merge first (merge second third) := by
  have remaining : ∀ entry : String × α,
      (!has (merge first second) entry.1) = (!has second entry.1 && !has first entry.1) := by
    intro entry
    rw [has_merge]
    simp [Bool.and_comm]
  have updates : ∀ entry : String × α,
      (get? third entry.1).getD ((get? second entry.1).getD entry.2) =
        (get? (merge second third) entry.1).getD entry.2 := by
    intro entry
    rw [get?_merge]
    cases get? third entry.1 <;> simp
  calc
    merge (merge first second) third
      = (first.map fun entry => (entry.1, (get? (merge second third) entry.1).getD entry.2)) ++
          (merge second third).filter fun entry => !has first entry.1 := by
        conv => lhs; rw [merge]
        simp only [remaining, ← updates]
        simp [merge, List.filter_map, List.filter_filter, Function.comp_def, Bool.and_comm]
    _ = merge first (merge second third) := rfl

end Fields
end DesignTokens
