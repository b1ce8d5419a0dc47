import DesignTokens.Proofs.Resolve.Diagnostics

/-!
# Malformed values and their warnings

A document has a malformed value wherever a null, a list, or an object with only one of a type and a
value stands for a token.  A walk away from the sections warns of exactly these values, in document
order and each at its own path.  A walk with sections leaves some of them out, but it warns of no
other and of none twice.
-/

namespace DesignTokens

namespace Json

/-! ## Malformed values -/

mutual

/-- The malformed values of a token tree in document order: the keys that lead to each, and what is
wrong with it.  Metadata and the members of leaves have none. -/
def malformations : Json → List (TokenPath × Malformation)
  | .null => [([], .null)]
  | .scalar _ => []
  | .list _ => [([], .list)]
  | .object entries =>
      match Fields.has entries typeKey, Fields.has entries valueKey with
      | true, true => []
      | false, true => [([], .valueWithoutType)]
      | true, false => [([], .typeWithoutValue)]
      | false, false => entryMalformations entries

/-- The malformed values below the entries of an object. -/
def entryMalformations : List (String × Json) → List (TokenPath × Malformation)
  | [] => []
  | (key, value) :: rest =>
      (if isMetadata key then []
        else (malformations value).map fun found => (key :: found.1, found.2)) ++
        entryMalformations rest

end

theorem malformations_object (entries : Fields Json) :
    (Json.object entries).malformations =
      match Node.shape entries with
      | .leaf _ _ => []
      | .malformed malformation => [([], malformation)]
      | .container => entryMalformations entries := by
  rw [malformations, Node.shape, Fields.has_eq_isSome, Fields.has_eq_isSome]
  cases Fields.get? entries typeKey <;> cases Fields.get? entries valueKey <;> rfl

theorem mem_entryMalformations (entries : List (String × Json))
    (found : TokenPath × Malformation) :
    found ∈ entryMalformations entries ↔
      ∃ entry ∈ entries, isMetadata entry.1 = false ∧
        ∃ inner ∈ entry.2.malformations, found = (entry.1 :: inner.1, inner.2) := by
  induction entries with
  | nil => simp [entryMalformations]
  | cons entry rest ih =>
      rw [entryMalformations, List.mem_append, ih, List.exists_mem_cons_iff]
      apply or_congr_left
      cases isMetadata entry.1 with
      | true => simp
      | false => simp [eq_comm]

theorem nodup_entryMalformations {entries : Fields Json} (distinct : (Fields.keys entries).Nodup)
    (parts : ∀ entry ∈ entries, (entry.2.malformations.map Prod.fst).Nodup) :
    ((entryMalformations entries).map Prod.fst).Nodup := by
  induction entries with
  | nil => exact List.nodup_nil
  | cons entry rest ih =>
      obtain ⟨here, others⟩ := List.forall_mem_cons.mp parts
      obtain ⟨fresh, distinct⟩ := (Fields.nodup_keys_cons entry rest).mp distinct
      rw [entryMalformations, List.map_append]
      split
      · exact ih distinct others
      · rw [List.map_map]
        have prefixed := here.map (List.cons_injective (a := entry.1))
        rw [List.map_map] at prefixed
        refine prefixed.append (ih distinct others) ?_
        -- The keys of the entry itself begin with its name, and no later entry has that name.
        intro keys first later
        obtain ⟨inner, -, begins⟩ := List.mem_map.mp first
        obtain ⟨found, member, ends⟩ := List.mem_map.mp later
        obtain ⟨other, listed, -, inner, -, rfl⟩ := (mem_entryMalformations rest found).mp member
        have same : entry.1 = other.1 := (List.cons.inj (begins.trans ends.symm)).1
        exact fresh (same ▸ Fields.mem_keys_of_mem listed)

/-- The keys that lead to the malformed values of a keyed document are all different. -/
theorem nodup_malformations {value : Json} (keyed : value.isKeyed = true) :
    (value.malformations.map Prod.fst).Nodup := by
  induction value using Json.induction with
  | null => exact List.nodup_singleton _
  | scalar value => exact List.nodup_nil
  | list items => exact List.nodup_singleton _
  | object entries ih =>
      obtain ⟨distinct, keyed⟩ := (isKeyed_object entries).mp keyed
      rw [malformations_object]
      split
      · exact List.nodup_nil
      · exact List.nodup_singleton _
      · exact nodup_entryMalformations distinct fun entry member =>
          ih entry member (keyed entry member)

/-- A value that stands for no container has at most one malformed value, which is the value
itself. -/
theorem mem_malformations_of_terminal {value : Json}
    (terminal : (Node.ofJson value).isContainer = false) (keys : TokenPath)
    (malformation : Malformation) :
    (keys, malformation) ∈ value.malformations ↔
      keys = [] ∧ ∃ raw, Node.ofJson value = .malformed raw malformation := by
  cases value with
  | null => simp [malformations, Node.ofJson, @eq_comm _ malformation]
  | scalar value => simp [malformations, Node.ofJson]
  | list items => simp [malformations, Node.ofJson, @eq_comm _ malformation]
  | object entries =>
      rw [Node.ofJson] at terminal ⊢
      rw [malformations_object]
      cases shaped : Node.shape entries with
      | leaf type value => simp
      | malformed found => simp [@eq_comm _ malformation]
      | container => simp [shaped, Node.isContainer] at terminal

theorem malformations_of_container {entries : Fields Json}
    (container : Node.ofJson (.object entries) = .container (Node.childrenOfJson entries)) :
    (Json.object entries).malformations = entryMalformations entries := by
  rw [Node.ofJson] at container
  rw [malformations_object]
  cases shaped : Node.shape entries with
  | container => rfl
  | _ => simp [shaped] at container

/-- In a keyed document, the malformed values are those that stand for a malformed node, reached
through containers by keys that are no metadata. -/
theorem mem_malformations_iff {value : Json} (keyed : value.isKeyed = true) (keys : TokenPath)
    (malformation : Malformation) :
    (keys, malformation) ∈ value.malformations ↔
      (∃ raw, (Node.ofJson value).descend? keys = some (.malformed raw malformation)) ∧
        ∀ key ∈ keys, isMetadata key = false := by
  induction keys generalizing value with
  | nil =>
      cases terminal : (Node.ofJson value).isContainer with
      | false => simp [mem_malformations_of_terminal terminal, Node.descend?]
      | true =>
          obtain ⟨entries, rfl, container⟩ := Node.exists_entries_of_isContainer terminal
          rw [malformations_of_container container, mem_entryMalformations, container]
          simp [Node.descend?]
  | cons key keys ih =>
      cases terminal : (Node.ofJson value).isContainer with
      | false =>
          rw [mem_malformations_of_terminal terminal,
            Node.descend?_of_terminal terminal (List.cons_ne_nil key keys)]
          simp
      | true =>
          obtain ⟨entries, rfl, container⟩ := Node.exists_entries_of_isContainer terminal
          obtain ⟨distinct, keyed⟩ := (isKeyed_object entries).mp keyed
          have child : (Node.ofJson (.object entries)).child? key =
              (Fields.get? entries key).map Node.ofJson := by
            rw [container, Node.child?, Node.childrenOfJson_eq_map,
              Fields.get?_map (fun _ => Node.ofJson)]
          rw [malformations_of_container container, mem_entryMalformations, Node.descend?, child,
            List.forall_mem_cons]
          constructor
          · rintro ⟨entry, listed, token, inner, member, same⟩
            obtain ⟨⟨rfl, rfl⟩, rfl⟩ := Prod.mk.inj same |>.imp_left List.cons.inj
            obtain ⟨reached, tokens⟩ := (ih (keyed entry listed)).mp member
            rw [Fields.get?_eq_some_of_mem distinct listed]
            exact ⟨reached, token, tokens⟩
          · rintro ⟨⟨raw, reached⟩, token, tokens⟩
            obtain ⟨part, found, reached⟩ := Option.bind_eq_some_iff.mp reached
            obtain ⟨inner, located, rfl⟩ := Option.map_eq_some_iff.mp found
            have listed := Fields.mem_of_get?_eq_some located
            exact ⟨_, listed, token, _,
              (ih (keyed _ listed)).mpr ⟨⟨raw, reached⟩, tokens⟩, rfl⟩

end Json

/-! ## Warnings -/

/-- The warning about a malformed value, seen from a path. -/
def Event.unresolvable (path : TokenPath) (found : TokenPath × Malformation) : Event :=
  .tokenUnresolvable (path ++ found.1) found.2

/-- The warnings about malformed values, in the order in which they were reported. -/
def Logged.unresolvable {α : Type} (logged : Logged α) : List Event :=
  logged.events.filter fun event => event.name = "token_unresolvable"

namespace Node

theorem childDiagnostics_childrenOfJson {entries : Fields Json}
    (parts : ∀ entry ∈ entries, ∀ path,
      (ofJson entry.2).diagnostics path = entry.2.malformations.map (.unresolvable path))
    (path : TokenPath) :
    childDiagnostics path (childrenOfJson entries) =
      (Json.entryMalformations entries).map (.unresolvable path) := by
  induction entries with
  | nil => rfl
  | cons entry rest ih =>
      obtain ⟨here, others⟩ := List.forall_mem_cons.mp parts
      rw [childrenOfJson, childDiagnostics, ih others, Json.entryMalformations, List.map_append,
        here]
      split
      · rfl
      · simp [Event.unresolvable, Function.comp_def]

/-- The malformed nodes of the tree of a document are its malformed values. -/
theorem diagnostics_ofJson (value : Json) (path : TokenPath) :
    (ofJson value).diagnostics path = value.malformations.map (.unresolvable path) := by
  induction value using Json.induction generalizing path with
  | null => simp [ofJson, diagnostics, Json.malformations, Event.unresolvable]
  | scalar value => rfl
  | list items => simp [ofJson, diagnostics, Json.malformations, Event.unresolvable]
  | object entries ih =>
      rw [ofJson, Json.malformations_object]
      cases Node.shape entries with
      | leaf type value => rfl
      | malformed malformation => simp [diagnostics, Event.unresolvable]
      | container =>
          rw [diagnostics_container]
          exact childDiagnostics_childrenOfJson ih path

end Node

namespace Resolve

/-- Every event of a walk that is about a node is a warning about a malformed value. -/
theorem unresolvable_node (path : TokenPath) (raw : Json) :
    (Resolve.node path (.ofJson raw)).unresolvable =
      (Resolve.node path (.ofJson raw)).diagnostics := by
  apply List.filter_congr
  intro event reported
  by_cases diagnostic : event.isDiagnostic = true
  · have member : event ∈ (Resolve.node path (.ofJson raw)).diagnostics :=
      List.mem_filter.mpr ⟨reported, diagnostic⟩
    have listed := Multiset.mem_of_le (diagnostics_node_le path (.ofJson raw)) member
    rw [Node.diagnostics_ofJson, Multiset.mem_coe, List.mem_map] at listed
    obtain ⟨found, -, rfl⟩ := listed
    rfl
  · cases event with
    | formSiblingsIgnored path keys => rfl
    | _ => exact absurd rfl diagnostic

theorem unresolvable_value_of_clear {path : TokenPath} (clear : Dispatch.Clear path) {raw : Json}
    (present : raw ≠ .null) :
    (value path raw).unresolvable = raw.malformations.map (.unresolvable path) := by
  rw [value_of_ne_null path present, unresolvable_node, node_eq_tree clear, diagnostics_tree,
    Node.diagnostics_ofJson]

theorem unresolvable_value_subperm (path : TokenPath) (raw : Json) :
    (value path raw).unresolvable.Subperm (raw.malformations.map (.unresolvable path)) := by
  by_cases present : raw = .null
  · subst present
    exact List.nil_subperm
  · rw [value_of_ne_null path present, unresolvable_node, ← Multiset.coe_le,
      ← Node.diagnostics_ofJson]
    exact diagnostics_node_le path (.ofJson raw)

theorem nodup_warnings {raw : Json} (keyed : raw.isKeyed = true) (path : TokenPath) :
    (raw.malformations.map (Event.unresolvable path)).Nodup := by
  have distinct := Json.nodup_malformations keyed
  apply List.Nodup.map_on _ distinct.of_map
  intro first listed second listedToo same
  have paths := (Event.tokenUnresolvable.inj same).1
  exact List.inj_on_of_nodup_map distinct listed listedToo (List.append_cancel_left paths)

/-- Away from the sections, a walk warns of the malformed values of a document, in document order,
and each of them once.  With sections it warns of some of them, and of none twice.  A warning gives
the path of the value in writing and the reason, and the malformed values are those that stand for
malformed nodes which are not below metadata. -/
theorem value_warns_of_malformations (path : TokenPath) {raw : Json} (keyed : raw.isKeyed = true) :
    (raw ≠ .null → Dispatch.Clear path →
      (value path raw).unresolvable = raw.malformations.map (.unresolvable path)) ∧
    (value path raw).unresolvable.Subperm (raw.malformations.map (.unresolvable path)) ∧
    (value path raw).unresolvable.Nodup ∧
    (∀ found, (Event.unresolvable path found).level = .warning ∧
      (Event.unresolvable path found).data =
        [("path", .str (TokenPath.location (path ++ found.1))),
         ("reason", .str found.2.reason)]) ∧
    (raw.malformations.map Prod.fst).Nodup ∧
    ∀ keys malformation, (keys, malformation) ∈ raw.malformations ↔
      (∃ inner, (Node.ofJson raw).descend? keys = some (.malformed inner malformation)) ∧
        ∀ key ∈ keys, isMetadata key = false := by
  obtain ⟨listed, arranged, part⟩ := unresolvable_value_subperm path raw
  have once := arranged.nodup_iff.mp (part.nodup (nodup_warnings keyed path))
  exact ⟨fun present clear => unresolvable_value_of_clear clear present,
    ⟨listed, arranged, part⟩, once, fun _ => ⟨rfl, rfl⟩, Json.nodup_malformations keyed,
    Json.mem_malformations_iff keyed⟩

/-- A section with malformed values in a form and in the icon and the group of an option. -/
def brokenSection : Json :=
  .object
    [("form", .object [("note", .null), ("field", .object [("gap", .list [])])]),
     ("list", .object [("option", .object
       [("icon", .object [("color", .null), ("size", .null)]),
        ("group", .object [(typeKey, .str "color")])])])]

/-- Under a name without sections, all five malformed values are warned of, and in a section no value
twice. -/
theorem brokenSection_warns :
    brokenSection.isKeyed = true ∧ Dispatch.Clear ["primitive"] ∧
    (value ["primitive"] brokenSection).unresolvable =
      [.tokenUnresolvable ["primitive", "form", "note"] .null,
       .tokenUnresolvable ["primitive", "form", "field", "gap"] .list,
       .tokenUnresolvable ["primitive", "list", "option", "icon", "color"] .null,
       .tokenUnresolvable ["primitive", "list", "option", "icon", "size"] .null,
       .tokenUnresolvable ["primitive", "list", "option", "group"] .typeWithoutValue] ∧
    (value ["semantic"] brokenSection).unresolvable.Nodup := by
  have keyed : brokenSection.isKeyed = true := by decide
  have clear : Dispatch.Clear ["primitive"] := by decide
  exact ⟨keyed, clear, (value_warns_of_malformations _ keyed).1 nofun clear,
    (value_warns_of_malformations _ keyed).2.2.1⟩

end Resolve
end DesignTokens
