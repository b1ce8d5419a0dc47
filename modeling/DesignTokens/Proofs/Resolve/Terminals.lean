import DesignTokens.Proofs.Resolve.Placement
import DesignTokens.Proofs.Resolve.Rules

/-!
# Expansions as rows of assignments

An expansion merges what the containers below its owner expand to.  The result is a row of
assignments: the terminals of the expansion, taken in document order and resolved each at its own
path, are assigned one after another to the entries next to the owner or to those under it.  So a
value is lost only to a later one with the same target.
-/

namespace DesignTokens

/-- A child at which the search for tokens ends: it has a rename rule, or it is no container. -/
structure Terminal where
  /-- The path of the container that holds the child. -/
  parent : TokenPath
  /-- The key of the child. -/
  key : String
  /-- The child. -/
  node : Node
  /-- Why the search ends. -/
  ends : (Rename.find? (parent ++ [key])).isSome ∨ node.isContainer = false

namespace Terminal

/-- The path of the child. -/
def path (terminal : Terminal) : TokenPath := terminal.parent ++ [terminal.key]

/-- The rule that renames the child. -/
def rule? (terminal : Terminal) : Option Rename := Rename.find? terminal.path

/-- The name that the value is assigned to. -/
def name (terminal : Terminal) : String :=
  match terminal.rule? with
  | some rule => rule.name
  | none => terminal.key

/-- The value at the path of the child, if there is one.  An empty object counts only under its own
key. -/
def value (terminal : Terminal) : Option Json :=
  let resolved := (Resolve.node terminal.path terminal.node).value
  match terminal.rule? with
  | some _ => Resolve.substantial resolved
  | none => resolved

/-- The events that are reported on the way to the value. -/
def events (terminal : Terminal) : List Event :=
  (Resolve.node terminal.path terminal.node).events

/-- The assignment, if there is a value. -/
def assignment? (terminal : Terminal) : Option (String × Json) :=
  terminal.value.map fun value => (terminal.name, value)

/-- Whether the value is assigned to the entries next to `owner`: the rule has three keys or more,
or begins with the owner. -/
def isFlat (owner : String) (terminal : Terminal) : Bool :=
  match terminal.rule? with
  | some rule => 3 ≤ rule.depth || rule.pattern.head? = some owner
  | none => false

/-- The place that the value is assigned to. -/
def target (owner : String) (terminal : Terminal) : Slot :=
  if terminal.isFlat owner then .own terminal.name else .under owner terminal.name

mutual

/-- The terminals below a node at a path, in document order. -/
def below (path : TokenPath) : Node → List Terminal
  | .container children => among path children
  | .leaf _ _ => []
  | .bare _ => []
  | .malformed _ _ => []

/-- The terminals among some children of a container at a path, and below those children that are
none.  Metadata is passed over. -/
def among (path : TokenPath) : List (String × Node) → List Terminal
  | [] => []
  | (key, child) :: rest =>
      if isMetadata key then among path rest
      else
        (if ends : (Rename.find? (path ++ [key])).isSome ∨ child.isContainer = false then
          [⟨path, key, child, ends⟩]
        else below (path ++ [key]) child) ++
        among path rest

end

/-- The terminals that one child of a container at a path is or holds. -/
def ofChild (path : TokenPath) (key : String) (child : Node) : List Terminal :=
  if ends : (Rename.find? (path ++ [key])).isSome ∨ child.isContainer = false then
    [⟨path, key, child, ends⟩]
  else below (path ++ [key]) child

/-- The assignments of those terminals that are kept, one after another. -/
def assigned (keep : Terminal → Bool) (terminals : List Terminal) : Fields Json :=
  Fields.ofList ((terminals.filter keep).filterMap assignment?)

end Terminal

namespace Expansion

/-- The expansion of `owner` that some terminals make up. -/
def ofTerminals (owner : String) (terminals : List Terminal) : Expansion where
  flattened := Terminal.assigned (fun terminal => terminal.isFlat owner) terminals
  nested := Terminal.assigned (fun terminal => !terminal.isFlat owner) terminals

/-- The value at a place. -/
def get? (expansion : Expansion) : Slot → Option Json
  | .own key => Fields.get? expansion.flattened key
  | .under _ key => Fields.get? expansion.nested key

end Expansion

namespace Dispatch

/-- Below a renamed token there are no sections. -/
theorem clear_of_find? {path : TokenPath} {rule : Rename} (found : Rename.find? path = some rule) :
    Clear path := by
  have foreign : ∀ rule ∈ Rename.table, ∃ key ∈ rule.pattern, ∀ root ∈ sectionRoots, key ∉ root := by
    decide
  obtain ⟨key, listed, foreign⟩ := foreign rule (Rename.mem_table_of_find? found)
  exact .of_mem ((Rename.pattern_suffix_of_find? found).subset listed) foreign

end Dispatch

namespace Terminal

theorem among_metadata (path : TokenPath) {key : String} (metadata : isMetadata key = true)
    (child : Node) (rest : List (String × Node)) :
    among path ((key, child) :: rest) = among path rest := by
  rw [among, if_pos metadata]

theorem among_token (path : TokenPath) {key : String} (token : isMetadata key = false)
    (child : Node) (rest : List (String × Node)) :
    among path ((key, child) :: rest) = ofChild path key child ++ among path rest := by
  rw [among, if_neg (by simp [token]), ofChild]

theorem below_of_terminal (path : TokenPath) {node : Node} (terminal : node.isContainer = false) :
    below path node = [] := by
  cases node with
  | container children => exact absurd terminal.symm Bool.false_ne_true
  | _ => rw [below]

/-- A child is a terminal, or a container without a rule that is searched. -/
theorem ofChild_cases (path : TokenPath) (key : String) (child : Node) :
    (∃ ends, ofChild path key child = [⟨path, key, child, ends⟩]) ∨
      Rename.find? (path ++ [key]) = none ∧ child.isContainer = true ∧
        ofChild path key child = below (path ++ [key]) child := by
  by_cases ends : (Rename.find? (path ++ [key])).isSome ∨ child.isContainer = false
  · exact .inl ⟨ends, dif_pos ends⟩
  · have searched : ofChild path key child = below (path ++ [key]) child := dif_neg ends
    rw [not_or, Option.not_isSome_iff_eq_none, Bool.not_eq_false] at ends
    exact .inr ⟨ends.1, ends.2, searched⟩

/-- A renamed token stands below no section, and what is no container has none. -/
theorem node_eq_tree (terminal : Terminal) :
    Resolve.node terminal.path terminal.node = Resolve.tree terminal.path terminal.node := by
  rcases terminal.ends with renamed | single
  · obtain ⟨rule, found⟩ := Option.isSome_iff_exists.mp renamed
    exact Resolve.node_eq_tree (Dispatch.clear_of_find? found) terminal.node
  · rw [Resolve.node_terminal _ single, Resolve.tree_terminal _ single]

/-! ## Placements -/

/-- The placement that makes the assignment. -/
def placement (owner : String) (terminal : Terminal) : Placement :=
  ⟨terminal.target owner, terminal.path, terminal.node, terminal.rule?.isSome⟩

theorem value_placement (owner : String) (terminal : Terminal) :
    (terminal.placement owner).value = terminal.value := by
  rw [Placement.value, placement, ← node_eq_tree, value]
  cases terminal.rule? <;> rfl

theorem own?_placement (owner : String) (terminal : Terminal) :
    (terminal.placement owner).own? =
      if terminal.isFlat owner then terminal.assignment? else none := by
  rw [Placement.own?, value_placement, placement, target, assignment?]
  cases terminal.isFlat owner <;> rfl

theorem under?_placement (owner : String) (terminal : Terminal) :
    (terminal.placement owner).under? =
      if !terminal.isFlat owner then terminal.assignment? else none := by
  rw [Placement.under?, value_placement, placement, target, assignment?]
  cases terminal.isFlat owner <;> rfl

/-! ## Shadowing -/

/-- A value stays assigned, unless a later one is kept that has the same name. -/
theorem get?_assigned (keep : Terminal → Bool) (earlier later : List Terminal) {terminal : Terminal}
    (kept : keep terminal = true) {value : Json} (resolved : terminal.value = some value) :
    Fields.get? (assigned keep (earlier ++ terminal :: later)) terminal.name = some value ∨
      ∃ other ∈ later, keep other = true ∧ other.name = terminal.name ∧ other.value.isSome := by
  have entry : terminal.assignment? = some (terminal.name, value) := by rw [assignment?, resolved]; rfl
  rw [assigned, List.filter_append, List.filterMap_append, List.filter_cons_of_pos kept,
    List.filterMap_cons_some entry]
  rcases Fields.get?_ofList_of_split _ (terminal.name, value) _ with found | again
  · exact .inl found
  · obtain ⟨entry, listed, same⟩ := again
    obtain ⟨other, member, assigns⟩ := List.mem_filterMap.mp listed
    obtain ⟨member, alike⟩ := List.mem_filter.mp member
    obtain ⟨found, resolved, rfl⟩ := Option.map_eq_some_iff.mp assigns
    exact .inr ⟨other, member, alike, same, by rw [resolved]; rfl⟩

end Terminal

namespace Expansion

/-- A value stays at its place, unless a later one is assigned to the same place. -/
theorem get?_ofTerminals (owner : String) (earlier later : List Terminal) {terminal : Terminal}
    {value : Json} (resolved : terminal.value = some value) :
    (ofTerminals owner (earlier ++ terminal :: later)).get? (terminal.target owner) = some value ∨
      ∃ other ∈ later, other.target owner = terminal.target owner ∧ other.value.isSome := by
  cases flat : terminal.isFlat owner with
  | true =>
      have place : terminal.target owner = .own terminal.name := by rw [Terminal.target, if_pos flat]
      rw [place]
      rcases Terminal.get?_assigned (Terminal.isFlat owner) earlier later flat resolved with
        found | ⟨other, listed, alike, name, assigns⟩
      · exact .inl found
      · exact .inr ⟨other, listed, by rw [Terminal.target, if_pos alike, name], assigns⟩
  | false =>
      have place : terminal.target owner = .under owner terminal.name := by
        rw [Terminal.target, if_neg (by simp [flat])]
      rw [place]
      rcases Terminal.get?_assigned (fun other => !other.isFlat owner) earlier later
        (by simp [flat]) resolved with found | ⟨other, listed, alike, name, assigns⟩
      · exact .inl found
      · rw [Bool.not_eq_true'] at alike
        exact .inr ⟨other, listed, by rw [Terminal.target, if_neg (by simp [alike]), name], assigns⟩

end Expansion

namespace Resolve

open Terminal (below among placement)

theorem renamedSlot_eq_target (owner : String) (terminal : Terminal) {rule : Rename}
    (found : terminal.rule? = some rule) :
    renamedSlot owner terminal.parent rule = terminal.target owner := by
  have place : (decide (3 ≤ rule.depth) || terminal.parent.getLast? = some owner) =
      terminal.isFlat owner := by
    rw [Terminal.isFlat, found]
    by_cases long : 3 ≤ rule.depth
    · simp [long]
    -- A rule of two keys begins with the key of the container that holds the child.
    · have first := Rename.head?_pattern_of_find? found (Nat.lt_of_not_le long)
      simp [long, first]
  rw [renamedSlot, Terminal.target, place, Terminal.name, found]

private theorem childTerminals_eq_map (owner : String) (path : TokenPath) (key : String)
    {child : Node}
    (searched : ∀ path, terminals owner path child = (below path child).map (placement owner)) :
    childTerminals owner path key child =
      (Terminal.ofChild path key child).map (placement owner) := by
  rw [childTerminals]
  rcases Terminal.ofChild_cases path key child with ⟨ends, single⟩ | ⟨unnamed, container, inside⟩
  · rw [single, List.map_singleton, placement]
    cases found : Rename.find? (path ++ [key]) with
    | some rule =>
        have slot := renamedSlot_eq_target owner ⟨path, key, child, ends⟩ found
        simp only [slot, Terminal.rule?, Terminal.path, found, Option.isSome_some]
    | none =>
        have terminal : child.isContainer = false := by simpa [found] using ends
        simp [terminal, Terminal.target, Terminal.isFlat, Terminal.name, Terminal.rule?,
          Terminal.path, found]
  · rw [inside, unnamed, ← searched]
    exact if_pos container

/-- The search for terminals places what the expansion places. -/
theorem terminals_eq_map (owner : String) (path : TokenPath) (node : Node) :
    terminals owner path node = (below path node).map (placement owner) := by
  induction node using Node.induction generalizing path with
  | terminal node terminal =>
      rw [terminals_of_terminal owner path terminal]
      cases node with
      | container children => exact absurd terminal.symm Bool.false_ne_true
      | _ => rfl
  | container children parts =>
      rw [terminals, below]
      induction children with
      | nil => rfl
      | cons child rest ih =>
          obtain ⟨here, others⟩ := List.forall_mem_cons.mp parts
          cases token : isMetadata child.1 with
          | true =>
              rw [childrenTerminals_metadata _ _ token, Terminal.among_metadata _ token, ih others]
          | false =>
              rw [childrenTerminals_token _ _ token, Terminal.among_token _ token,
                List.map_append, ih others, childTerminals_eq_map owner path child.1 here]

theorem ofPlacements_map (owner : String) (terminals : List Terminal) :
    Expansion.ofPlacements (terminals.map (placement owner)) =
      .ofTerminals owner terminals := by
  rw [Expansion.ofPlacements, Expansion.ofTerminals, Terminal.assigned, Terminal.assigned,
    List.filterMap_map, List.filterMap_map, List.filterMap_filter, List.filterMap_filter]
  congr 2
  · exact List.filterMap_congr fun terminal _ => terminal.own?_placement owner
  · exact List.filterMap_congr fun terminal _ => terminal.under?_placement owner

/-! ## Events -/

private theorem events_expandChild {owner : String} {child : Node}
    (searched : ∀ path,
      (expand owner path child.children).events = (below path child).flatMap Terminal.events)
    (path : TokenPath) (key : String) :
    (expandChild owner path key child).events =
      (Terminal.ofChild path key child).flatMap Terminal.events := by
  rcases Terminal.ofChild_cases path key child with ⟨ends, single⟩ | ⟨unnamed, container, inside⟩
  · rw [single, List.flatMap_singleton, Terminal.events, Terminal.node_eq_tree]
    cases found : Rename.find? (path ++ [key]) with
    | some rule => rw [expandChild_of_rule owner found, Logged.map_events, Terminal.path]
    | none =>
        have terminal : child.isContainer = false := by simpa [found] using ends
        rw [expandChild_of_terminal owner found terminal, Logged.map_events, Terminal.path]
  · obtain ⟨children, rfl⟩ := Node.exists_children container
    rw [inside, expandChild_of_container owner unnamed, ← searched, Node.children]

/-- An expansion reports what its terminals report, in order. -/
theorem events_expand (owner : String) (path : TokenPath) (node : Node) :
    (expand owner path node.children).events = (below path node).flatMap Terminal.events := by
  induction node using Node.induction generalizing path with
  | terminal node terminal =>
      rw [Node.children_of_terminal terminal, Terminal.below_of_terminal path terminal]
      rfl
  | container children parts =>
      rw [Node.children, below]
      induction children with
      | nil => rfl
      | cons child rest ih =>
          obtain ⟨here, others⟩ := List.forall_mem_cons.mp parts
          cases token : isMetadata child.1 with
          | true => rw [expand_metadata _ _ token, Terminal.among_metadata _ token, ih others]
          | false =>
              rw [expand_token _ _ token, Terminal.among_token _ token, List.flatMap_append,
                ← events_expandChild here, ← ih others]
              simp

/-- An expansion is a row of assignments: the values of its terminals, in document order, with their
events.  A value gets lost only to a later one that is assigned to the same place. -/
theorem expand_eq_ofTerminals (owner : String) (path : TokenPath) (children : Fields Node) :
    expand owner path children =
        ⟨.ofTerminals owner (among path children),
          (among path children).flatMap Terminal.events⟩ ∧
      ∀ earlier terminal later, among path children = earlier ++ terminal :: later →
        ∀ value, terminal.value = some value →
          (expand owner path children).value.get? (terminal.target owner) = some value ∨
            ∃ other ∈ later, other.target owner = terminal.target owner ∧ other.value.isSome := by
  have row : (expand owner path children).value = .ofTerminals owner (among path children) := by
    rw [← ofPlacements_map]
    have placed := value_expand owner path (.container children)
    rwa [terminals_eq_map, below] at placed
  constructor
  · have events := events_expand owner path (.container children)
    rw [below] at events
    exact Logged.ext row events
  · intro earlier terminal later listed value resolved
    rw [row, listed]
    exact Expansion.get?_ofTerminals owner earlier later resolved

/-- Tokens below a rename parent, some of which are assigned to the same place. -/
def hoverTokens : Fields Node :=
  [("color", .leaf "color" (.str "red")),
   ("background", .container []),
   ("focus", .container
     [("color", .leaf "color" (.str "navy")),
      ("hover", .container [("color", .leaf "color" (.str "blue"))])]),
   ("focusColor", .bare (.str "black")),
   ("$note", .bare (.str "about hovering")),
   ("muted", .container [("color", .leaf "color" (.str "gray"))]),
   ("shade", .malformed .null .null)]

/-- The first color is lost, as a later color is assigned to its place. -/
theorem expand_hoverTokens :
    expand "hover" ["semantic", "hover"] hoverTokens =
        ⟨⟨[("hoverColor", .str "blue"), ("hoverMutedColor", .str "gray")],
          [("focusColor", .str "black")]⟩,
          [.tokenUnresolvable ["semantic", "hover", "shade"] .null]⟩ ∧
      ∃ other ∈ (among ["semantic", "hover"] hoverTokens).tail,
        other.target "hover" = .own "hoverColor" ∧ other.value.isSome := by
  obtain ⟨row, kept⟩ := expand_eq_ofTerminals "hover" ["semantic", "hover"] hoverTokens
  have result : expand "hover" ["semantic", "hover"] hoverTokens =
      ⟨⟨[("hoverColor", .str "blue"), ("hoverMutedColor", .str "gray")],
        [("focusColor", .str "black")]⟩,
        [.tokenUnresolvable ["semantic", "hover", "shade"] .null]⟩ := row.trans rfl
  refine ⟨result, (kept [] _ _ rfl (.str "red") rfl).resolve_left ?_⟩
  rw [result]
  change some (Json.str "blue") ≠ some (Json.str "red")
  simp [Json.str]

end Resolve
end DesignTokens
