import DesignTokens.Proofs.Resolve.Results

/-!
# Merging expansions

To merge a map into another is to assign its entries one after another, so that a row of expansions
is merged by assigning all their entries in sequence.  What is nested in an expansion becomes the
value of a rename parent, and the entries next to it cannot take its key: they have flat names, and
no flat name is a rename parent.
-/

namespace DesignTokens

namespace Fields

variable {α : Type}

/-- Assign a row of entries, one after another. -/
def assign (fields : Fields α) (entries : List (String × α)) : Fields α :=
  entries.foldl (fun fields entry => fields.put entry.1 entry.2) fields

theorem assign_append (fields : Fields α) (first second : List (String × α)) :
    assign fields (first ++ second) = assign (assign fields first) second :=
  List.foldl_append

/-- A map is merged by assigning its entries. -/
theorem merge_eq_assign {left right : Fields α} (distinctLeft : (keys left).Nodup)
    (distinctRight : (keys right).Nodup) : merge left right = assign left right :=
  calc
    merge left right = merge (ofList left) (ofList right) := by
      rw [ofList_eq_self distinctLeft, ofList_eq_self distinctRight]
    _ = ofList (left ++ right) := (ofList_append left right).symm
    _ = assign (ofList left) right := assign_append [] left right
    _ = assign left right := by rw [ofList_eq_self distinctLeft]

end Fields

namespace Expansion

/-- No key is named twice, neither next to the container nor below it. -/
structure IsKeyed (expansion : Expansion) : Prop where
  /-- The entries next to the key. -/
  flattened : (Fields.keys expansion.flattened).Nodup
  /-- The entries under the key. -/
  nested : (Fields.keys expansion.nested).Nodup

theorem IsKeyed.merge {first second : Expansion} (keyed : IsKeyed first)
    (keyed' : IsKeyed second) : IsKeyed (first.merge second) where
  flattened := Fields.nodup_keys_merge keyed.flattened keyed'.flattened
  nested := Fields.nodup_keys_merge keyed.nested keyed'.nested

/-- Assign entries next to the key and entries under it, each in sequence. -/
def assign (expansion : Expansion) (flattened nested : List (String × Json)) : Expansion where
  flattened := expansion.flattened.assign flattened
  nested := expansion.nested.assign nested

theorem merge_eq_assign {first second : Expansion} (keyed : IsKeyed first)
    (keyed' : IsKeyed second) :
    first.merge second = first.assign second.flattened second.nested := by
  rw [merge, assign, Fields.merge_eq_assign keyed.flattened keyed'.flattened,
    Fields.merge_eq_assign keyed.nested keyed'.nested]

theorem assign_append (expansion : Expansion) (flat flat' under under' : List (String × Json)) :
    expansion.assign (flat ++ flat') (under ++ under') =
      (expansion.assign flat under).assign flat' under' := by
  simp only [assign, Fields.assign_append]

/-- A row of expansions is merged by assigning all their entries in sequence. -/
theorem foldl_merge_eq_assign {first : Expansion} {rest : List Expansion} (keyed : IsKeyed first)
    (keyed' : ∀ expansion ∈ rest, IsKeyed expansion) :
    rest.foldl merge first = first.assign (rest.flatMap flattened) (rest.flatMap nested) := by
  induction rest generalizing first with
  | nil => rfl
  | cons second rest ih =>
      obtain ⟨here, others⟩ := List.forall_mem_cons.mp keyed'
      -- the rest is merged into two expansions at once, which together are keyed again
      rw [List.foldl_cons, ih (keyed.merge here) others, merge_eq_assign keyed here,
        List.flatMap_cons, List.flatMap_cons, assign_append]

/-! ## Expansions of containers -/

variable {holds : Json → Prop} {expansion : Expansion} {key : String}

theorem Clean.isKeyed (clean : Clean holds expansion) : IsKeyed expansion :=
  ⟨clean.flattened.distinct, clean.nested.distinct⟩

/-- A rename parent has an entry exactly if something is nested. -/
theorem Clean.parent_mem_entries_iff (clean : Clean holds expansion)
    (parent : Rename.isParent key = true) :
    key ∈ Fields.keys (expansion.entries key) ↔ expansion.nested ≠ [] := by
  have unnamed := clean.parent_not_mem parent
  rw [clean.entries_eq parent]
  cases nested : expansion.nested with
  | nil => simp [unnamed]
  | cons entry rest => simp

/-- The value of a rename parent is what is nested. -/
theorem Clean.get?_entries_parent (clean : Clean holds expansion)
    (parent : Rename.isParent key = true) (nonempty : expansion.nested ≠ []) :
    Fields.get? (expansion.entries key) key = some (.object expansion.nested) := by
  rw [clean.entries_eq parent, if_neg (by simpa using nonempty)]
  exact if_pos rfl

/-- Expansions are a monoid under merging, with the order of their entries, and to merge some in
sequence is to assign their entries one after another.  What a rename parent contributes by an
expansion has its key exactly if something is nested; the value is what is nested, and no flat entry
takes the key. -/
theorem merges_in_sequence_and_keeps_parent :
    (∀ first second third : Expansion,
      first.merge (second.merge third) = (first.merge second).merge third) ∧
    (∀ expansion : Expansion,
      merge .empty expansion = expansion ∧ merge expansion .empty = expansion) ∧
    (∀ (first : Expansion) (rest : List Expansion), IsKeyed first →
      (∀ expansion ∈ rest, IsKeyed expansion) →
        rest.foldl merge first =
          ⟨first.flattened.assign (rest.flatMap flattened),
            first.nested.assign (rest.flatMap nested)⟩) ∧
    ∀ key, Rename.isParent key = true → ∀ (owner : String) (path : TokenPath) (node : Node),
      let expansion := (Resolve.expand owner path node.children).value
      IsKeyed expansion ∧
        (key ∈ Fields.keys (expansion.entries key) ↔ expansion.nested ≠ []) ∧
        (expansion.nested ≠ [] →
          Fields.get? (expansion.entries key) key = some (.object expansion.nested)) ∧
        key ∉ Fields.keys expansion.flattened := by
  refine ⟨fun first second third => (merge_assoc first second third).symm,
    fun expansion => ⟨empty_merge expansion, merge_empty expansion⟩,
    fun first rest keyed keyed' => foldl_merge_eq_assign keyed keyed', ?_⟩
  intro key parent owner path node
  have clean := Resolve.expand_preserves (fun _ _ => trivial) node.yields_true owner path
  exact ⟨clean.isKeyed, clean.parent_mem_entries_iff parent, clean.get?_entries_parent parent,
    clean.parent_not_mem parent⟩

/-- A font with a size, which has a flat name, and a family, which has none. -/
def fontTokens : Fields Node :=
  [("size", .leaf "dimension" (.str "1rem")), ("family", .leaf "fontFamily" (.str "sans"))]

/-- The size of the font and a family of its own. -/
def otherFont : Expansion where
  flattened := [("fontWeight", .str "bold"), ("fontSize", .str "2rem")]
  nested := [("stretch", .str "wide"), ("family", .str "serif")]

/-- What is assigned again keeps its place and takes the later value, and the font keeps its family
under its own key. -/
theorem fonts_merge_in_sequence :
    let font := (Resolve.expand "font" ["font"] fontTokens).value
    IsKeyed font ∧ IsKeyed otherFont ∧
      [otherFont, font].foldl merge font =
        ⟨[("fontSize", .str "1rem"), ("fontWeight", .str "bold")],
          [("family", .str "sans"), ("stretch", .str "wide")]⟩ ∧
      Rename.isParent "font" = true ∧ font.nested ≠ [] ∧
      Fields.get? (font.entries "font") "font" = some (.object [("family", .str "sans")]) := by
  intro font
  obtain ⟨-, -, sequence, parents⟩ := merges_in_sequence_and_keeps_parent
  obtain ⟨keyed, -, entry, -⟩ :=
    parents "font" (by decide) "font" ["font"] (.container fontTokens)
  have other : IsKeyed otherFont := ⟨by decide, by decide⟩
  have row : ∀ expansion ∈ [otherFont, font], IsKeyed expansion := by simpa using ⟨other, keyed⟩
  have family : font.nested ≠ [] := List.cons_ne_nil _ _
  exact ⟨keyed, other, (sequence font [otherFont, font] keyed row).trans rfl, by decide, family,
    entry family⟩

end Expansion
end DesignTokens
