import DesignTokens.Literal
import DesignTokens.Proofs.Token.Tree

/-!
# Parts that have a value

What is written keeps only the parts of a tree that have a value.  Pruning leaves these parts alone,
and the pruned tree is written as the tree is.
-/

namespace DesignTokens

namespace Json

/-- Whether a value is not null. -/
def isPresent : Json → Bool
  | .null => false
  | _ => true

theorem eq_null_or_isPresent (value : Json) : value = .null ∨ value.isPresent = true := by
  cases value with
  | null => exact .inl rfl
  | _ => exact .inr rfl

mutual

/-- A value without its entries and items that have none, at every depth. -/
def prune : Json → Json
  | .null => .null
  | .scalar leaf => .scalar leaf
  | .list items => .list (pruneItems items)
  | .object entries => .object (pruneEntries entries)

/-- The items of a list that have a value. -/
def pruneItems : List Json → List Json
  | [] => []
  | .null :: rest => pruneItems rest
  | item :: rest => prune item :: pruneItems rest

/-- The entries of an object that have a value. -/
def pruneEntries : List (String × Json) → List (String × Json)
  | [] => []
  | (_, .null) :: rest => pruneEntries rest
  | (name, entry) :: rest => (name, prune entry) :: pruneEntries rest

end

theorem isPresent_prune (value : Json) : value.prune.isPresent = value.isPresent := by
  cases value <;> rfl

theorem pruneItems_cons {item : Json} (present : item.isPresent = true) (items : List Json) :
    pruneItems (item :: items) = item.prune :: pruneItems items := by
  cases item with
  | null => cases present
  | _ => rfl

theorem pruneEntries_cons {entry : String × Json} (present : entry.2.isPresent = true)
    (entries : List (String × Json)) :
    pruneEntries (entry :: entries) = (entry.1, entry.2.prune) :: pruneEntries entries := by
  obtain ⟨name, entry⟩ := entry
  cases entry with
  | null => cases present
  | _ => rfl

/-! ### Tests of names and scalars -/

section Passing

variable (name : String → Bool) (scalar : Scalar → Bool)

mutual

/-- Whether the names and the scalars of all parts that have a value pass a test. -/
def passes : Json → Bool
  | .null => true
  | .scalar leaf => scalar leaf
  | .list items => itemsPass items
  | .object entries => entriesPass entries

/-- Whether all items of a list pass. -/
def itemsPass : List Json → Bool
  | [] => true
  | item :: rest => passes item && itemsPass rest

/-- Whether all entries of an object that have a value pass. -/
def entriesPass : List (String × Json) → Bool
  | [] => true
  | (_, .null) :: rest => entriesPass rest
  | (key, entry) :: rest => name key && passes entry && entriesPass rest

end

variable {name scalar}

theorem entriesPass_cons {entry : String × Json} (present : entry.2.isPresent = true)
    (entries : List (String × Json)) :
    entriesPass name scalar (entry :: entries) =
      (name entry.1 && passes name scalar entry.2 && entriesPass name scalar entries) := by
  obtain ⟨key, entry⟩ := entry
  cases entry with
  | null => cases present
  | _ => rfl

theorem passes_of_forall (names : ∀ key, name key = true) (scalars : ∀ leaf, scalar leaf = true)
    (value : Json) : value.passes name scalar = true := by
  induction value using Json.induction with
  | null => rfl
  | scalar leaf => exact scalars leaf
  | list items ih =>
      rw [passes]
      induction items with
      | nil => rfl
      | cons item items rest =>
          obtain ⟨here, others⟩ := List.forall_mem_cons.mp ih
          rw [itemsPass, here, rest others, Bool.and_self]
  | object entries ih =>
      rw [passes]
      induction entries with
      | nil => rfl
      | cons entry entries rest =>
          obtain ⟨key, entry⟩ := entry
          obtain ⟨here, others⟩ := List.forall_mem_cons.mp ih
          rcases entry.eq_null_or_isPresent with rfl | present
          · exact rest others
          · rw [entriesPass_cons present, names, here, rest others]
            rfl

end Passing

end Json

namespace Literal

/-! ## Rows of texts -/

theorem itemTexts_cons (indent : Int) {item : Json} (present : item.isPresent = true)
    (items : List Json) :
    itemTexts indent (item :: items) = value indent item :: itemTexts indent items := by
  cases item with
  | null => cases present
  | _ => rfl

theorem itemTexts_eq (indent : Int) (items : List Json) :
    itemTexts indent items = (items.filter Json.isPresent).map (value indent) := by
  induction items with
  | nil => rfl
  | cons item items ih =>
      rcases item.eq_null_or_isPresent with rfl | present
      · exact ih
      · rw [itemTexts_cons indent present, List.filter_cons_of_pos present, List.map_cons, ih]

/-- The line of an entry. -/
def entryLine (indent : Int) (entry : String × Json) : List Char :=
  spaces indent ++ key entry.1 ++ [':', ' '] ++ value indent entry.2

theorem entryLines_cons (indent : Int) {entry : String × Json} (present : entry.2.isPresent = true)
    (entries : List (String × Json)) :
    entryLines indent (entry :: entries) = entryLine indent entry :: entryLines indent entries := by
  obtain ⟨name, entry⟩ := entry
  cases entry with
  | null => cases present
  | _ => rfl

theorem entryLines_eq (indent : Int) (entries : List (String × Json)) :
    entryLines indent entries =
      (entries.filter fun entry => entry.2.isPresent).map (entryLine indent) := by
  induction entries with
  | nil => rfl
  | cons entry entries ih =>
      obtain ⟨name, entry⟩ := entry
      rcases entry.eq_null_or_isPresent with rfl | present
      · exact ih
      · rw [entryLines_cons indent present, ih]
        simp [present]

theorem exists_object_eq_cons (indent : Int) (entries : List (String × Json)) :
    ∃ tail, object indent (.object entries) = '{' :: tail := by
  rw [object, block]
  split <;> exact ⟨_, rfl⟩

/-! ## Pruned trees -/

theorem itemTexts_pruneItems (indent : Int) {items : List Json}
    (same : ∀ item ∈ items, value indent item.prune = value indent item) :
    itemTexts indent (Json.pruneItems items) = itemTexts indent items := by
  induction items with
  | nil => rfl
  | cons item items ih =>
      obtain ⟨here, others⟩ := List.forall_mem_cons.mp same
      rcases item.eq_null_or_isPresent with rfl | present
      · exact ih others
      · have pruned := item.isPresent_prune.trans present
        rw [Json.pruneItems_cons present, itemTexts_cons indent pruned,
          itemTexts_cons indent present, here, ih others]

theorem entryLines_pruneEntries (indent : Int) {entries : List (String × Json)}
    (same : ∀ entry ∈ entries, value indent entry.2.prune = value indent entry.2) :
    entryLines indent (Json.pruneEntries entries) = entryLines indent entries := by
  induction entries with
  | nil => rfl
  | cons entry entries ih =>
      obtain ⟨name, entry⟩ := entry
      obtain ⟨here, others⟩ := List.forall_mem_cons.mp same
      rcases entry.eq_null_or_isPresent with rfl | present
      · exact ih others
      · have pruned : (name, entry.prune).2.isPresent = true := entry.isPresent_prune.trans present
        rw [Json.pruneEntries_cons present, entryLines_cons indent pruned,
          entryLines_cons indent present, entryLine, entryLine, here, ih others]

theorem value_prune (indent : Int) (tree : Json) : value indent tree.prune = value indent tree := by
  induction tree using Json.induction generalizing indent with
  | null => rfl
  | scalar leaf => rfl
  | list items ih =>
      rw [Json.prune, value, value, itemTexts_pruneItems indent fun item member =>
        ih item member indent]
  | object entries ih =>
      rw [Json.prune, value, value, entryLines_pruneEntries (indent + step) fun entry member =>
        ih entry member (indent + step)]

theorem object_prune (indent : Int) (tree : Json) :
    object indent tree.prune = object indent tree := by
  cases tree with
  | object entries => exact value_prune indent (.object entries)
  | _ => rfl

end Literal
end DesignTokens
