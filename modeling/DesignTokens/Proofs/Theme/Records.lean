import DesignTokens.Proofs.Generation.Outcome
import DesignTokens.Proofs.Log.Scope
import DesignTokens.Proofs.Resolve.Malformations

/-!
# The records of a theme

Making a theme records what each pass reports, one pass after another, and that the theme is
complete.  What is reported about the subtree of a section is recorded with the key of the section
bound, and everything else with nothing bound but what was bound before.
-/

namespace DesignTokens

namespace Event

/-- Whether an event is about the subtree of a section. -/
def isOfSection : Event → Bool
  | tokenUnresolvable .. => true
  | formSiblingsIgnored .. => true
  | sectionProcessed .. => true
  | _ => false

/-- Whether an event is none of those with a meaning of their own. -/
def isNote : Event → Bool
  | note .. => true
  | _ => false

theorem isNote_of_isOfSection {event : Event} (about : event.isOfSection = true) :
    event.isNote = false := by
  cases event with
  | note => exact absurd about Bool.false_ne_true
  | _ => rfl

theorem section_not_own {event : Event} (about : event.isOfSection = true) :
    Fields.get? event.data "section" = none := by
  cases event with
  | tokenUnresolvable | formSiblingsIgnored | sectionProcessed => simp [data, Fields.get?]
  | _ => exact absurd about Bool.false_ne_true

theorem input_file_not_own {event : Event} (specific : event.isNote = false) :
    Fields.get? event.data "input_file" = none := by
  cases event with
  | note => exact absurd specific.symm Bool.false_ne_true
  | _ => simp [data, Fields.get?]

end Event

namespace Record

/-- What is bound is an entry of a record unless the event has an entry of that name itself. -/
theorem get?_entries {record : Record} {key : String}
    (own : Fields.get? record.event.data key = none) (other : key ∉ ["event", "level"]) :
    Fields.get? record.entries key = Fields.get? record.context key := by
  have outer : Fields.get?
      [("event", Json.str record.event.name), ("level", .str record.event.level.name)] key = none :=
    (Fields.get?_eq_none_iff_not_mem _ _).mpr other
  rw [entries, Fields.get?_merge, Fields.get?_merge, outer, own, Option.none_or, Option.none_or]

/-- A record bears the document that was bound around it. -/
theorem input_file_of_prefix {record : Record} {context : Fields Json} {file : Json}
    (specific : record.event.isNote = false) (bound : Fields.get? context "input_file" = some file)
    (within : context <+: record.context) :
    Fields.get? record.entries "input_file" = some file := by
  obtain ⟨inner, whole⟩ := within
  rw [get?_entries (Event.input_file_not_own specific) (by decide), ← whole, Fields.get?_append,
    bound, Option.some_or]

end Record

namespace Resolve

/-- A walk over a document value reports nothing but malformed nodes and left out children. -/
theorem isOfSection_of_mem_node (path : TokenPath) (raw : Json) {event : Event}
    (reported : event ∈ (node path (.ofJson raw)).events) : event.isOfSection = true := by
  by_cases diagnostic : event.isDiagnostic = true
  · have member : event ∈ (node path (.ofJson raw)).diagnostics :=
      List.mem_filter.mpr ⟨reported, diagnostic⟩
    have listed := Multiset.mem_of_le (diagnostics_node_le path (.ofJson raw)) member
    rw [Node.diagnostics_ofJson, Multiset.mem_coe, List.mem_map] at listed
    obtain ⟨found, -, rfl⟩ := listed
    rfl
  · cases event with
    | formSiblingsIgnored path keys => rfl
    | _ => exact absurd rfl diagnostic

end Resolve

namespace Theme

variable {settings : Settings} {document : Document} {context : Fields Json} {pass : ThemePass}

/-! ## Passes -/

/-- What a pass reports, in order. -/
def passEvents (settings : Settings) (document : Document) (pass : ThemePass) : List Event :=
  match (Fields.get? document (settings.sectionKey pass.path)).bind Json.toOption with
  | none => [.sectionMissing (settings.sectionKey pass.path)]
  | some raw =>
      if (Node.ofJson raw).isContainer then
        (walk settings document pass).events ++
          [.sectionProcessed (walk settings document pass).value.length]
      else [.sectionNotAContainer (settings.sectionKey pass.path)]

/-- The record of an event that a pass reports, if `context` is bound around the pass. -/
def passRecord (settings : Settings) (context : Fields Json) (pass : ThemePass) (event : Event) :
    Record where
  event := event
  context :=
    if event.isOfSection then context ++ [("section", .str (settings.sectionKey pass.path))]
    else context

/-- The records of a pass. -/
def passRecords (settings : Settings) (document : Document) (context : Fields Json)
    (pass : ThemePass) : List Record :=
  (passEvents settings document pass).map (passRecord settings context pass)

theorem passRecord_of_isOfSection {event : Event} (about : event.isOfSection = true) :
    passRecord settings context pass event =
      ⟨event, context ++ [("section", .str (settings.sectionKey pass.path))]⟩ := by
  rw [passRecord, if_pos about]

/-- The walk of a pass over a container reports only on the subtree of the section. -/
theorem isOfSection_of_mem_walk {raw : Json} {children : Fields Node}
    (found : (Fields.get? document (settings.sectionKey pass.path)).bind Json.toOption = some raw)
    (shaped : Node.ofJson raw = .container children) {event : Event}
    (reported : event ∈ (walk settings document pass).events) : event.isOfSection = true := by
  rw [walk, Document.tokens_of_found found, shaped, Node.children] at reported
  apply Resolve.isOfSection_of_mem_node pass.path raw
  rw [shaped, Resolve.node, Logged.map_events]
  exact reported

theorem isNote_of_mem_passEvents {event : Event}
    (reported : event ∈ passEvents settings document pass) : event.isNote = false := by
  unfold passEvents at reported
  cases found : (Fields.get? document (settings.sectionKey pass.path)).bind Json.toOption with
  | none =>
      rw [found] at reported
      rw [List.mem_singleton.mp reported]
      rfl
  | some raw =>
      rw [found] at reported
      dsimp only at reported
      cases container : (Node.ofJson raw).isContainer with
      | false =>
          rw [container, if_neg Bool.false_ne_true] at reported
          rw [List.mem_singleton.mp reported]
          rfl
      | true =>
          obtain ⟨children, shaped⟩ := Node.exists_children container
          rw [container, if_pos rfl, List.mem_append] at reported
          rcases reported with walked | complete
          · exact Event.isNote_of_isOfSection (isOfSection_of_mem_walk found shaped walked)
          · rw [List.mem_singleton.mp complete]
            rfl

/-- A pass gives what its walk gives, and adds its records. -/
theorem resolvePass_adds (settings : Settings) (document : Document) (pass : ThemePass)
    (unbound : "section" ∉ Fields.keys context) :
    (resolvePass settings document pass).Adds context (.ok (walk settings document pass).value)
      (passRecords settings document context pass) := by
  unfold resolvePass passRecords passEvents
  cases found : (Fields.get? document (settings.sectionKey pass.path)).bind Json.toOption with
  | none =>
      rw [resolveSection_of_missing found, walk, Document.tokens_of_missing found]
      exact (Journaled.Adds.report _ context).bind (.pure [] context)
  | some raw =>
      cases container : (Node.ofJson raw).isContainer with
      | false =>
          rw [resolveSection_of_terminal found container, walk, Document.tokens_of_found found,
            Node.children_of_terminal container]
          dsimp only
          rw [container, if_neg Bool.false_ne_true]
          exact (Journaled.Adds.report _ context).bind (.pure [] context)
      | true =>
          obtain ⟨children, shaped⟩ := Node.exists_children container
          have walked : Resolve.nodeEntries pass.path children = walk settings document pass := by
            rw [walk, Document.tokens_of_found found, shaped, Node.children]
          have fresh : ∀ key ∈ Fields.keys
              [("section", Json.str (settings.sectionKey pass.path))], key ∉ Fields.keys context :=
            List.forall_mem_singleton.mpr unbound
          have merged := Fields.merge_of_disjoint fun key known added => fresh key added known
          have records : (walk settings document pass).events.map
              (passRecord settings context pass) = _ :=
            List.map_congr_left fun event reported =>
              passRecord_of_isOfSection (isOfSection_of_mem_walk found shaped reported)
          rw [resolveSection_of_container found shaped, walked]
          dsimp only
          rw [container, if_pos rfl, List.map_append, records, List.map_singleton,
            passRecord_of_isOfSection rfl, ← merged]
          apply Journaled.Adds.within fresh
          apply (Journaled.Adds.ofLogged _ _).bind
          exact (Journaled.Adds.report (.sectionProcessed _) _).bind (.pure _ _)

/-! ## Themes -/

/-- The passes in order. -/
def passes : List ThemePass := [.primitive, .semantic, .light, .dark]

/-- What is reported of a complete theme. -/
def completion (settings : Settings) (document : Document) : Event :=
  .themeCreated settings.tokenFormat (walk settings document .primitive).value.length
    (walk settings document .semantic).value.length

/-- The records of a theme, if `context` is bound around it. -/
def records (settings : Settings) (document : Document) (context : Fields Json) : List Record :=
  passes.flatMap (passRecords settings document context) ++
    [⟨completion settings document, context⟩]

/-- A theme is what the walks make, and adds its records. -/
theorem ofDocument_adds (settings : Settings) (document : Document)
    (unbound : "section" ∉ Fields.keys context) :
    (ofDocument settings document).Adds context (.ok (ofWalks settings document))
      (records settings document context) := by
  have adds := fun pass => resolvePass_adds settings document pass unbound
  have created := Journaled.Adds.report (completion settings document) context
  have listed : records settings document context =
      passRecords settings document context .primitive ++
        (passRecords settings document context .semantic ++
          (passRecords settings document context .light ++
            (passRecords settings document context .dark ++
              ([⟨completion settings document, context⟩] ++ [])))) := by
    simp only [records, passes, List.flatMap_cons, List.flatMap_nil, List.append_nil,
      List.append_assoc]
  rw [listed, ofDocument]
  exact (adds .primitive).bind <| (adds .semantic).bind <| (adds .light).bind <|
    (adds .dark).bind <| created.bind <| .pure (ofWalks settings document) context

/-! ## Nesting -/

theorem nested_resolvePass (settings : Settings) (document : Document) (pass : ThemePass)
    {bound : List String} (unbound : "section" ∉ bound) :
    (resolvePass settings document pass).Nested bound := by
  unfold resolvePass resolveSection
  split
  · exact (Journaled.Nested.report _).bind fun _ => .pure []
  · split
    · refine .within (List.forall_mem_singleton.mpr unbound) ?_
      apply (Journaled.Nested.ofLogged _).bind
      exact fun entries => (Journaled.Nested.report _).bind fun _ => .pure entries
    · exact (Journaled.Nested.report _).bind fun _ => .pure []

/-- Making a theme is nested work where no section is bound. -/
theorem nested_ofDocument (settings : Settings) (document : Document) {bound : List String}
    (unbound : "section" ∉ bound) : (ofDocument settings document).Nested bound := by
  have nested := fun pass => nested_resolvePass settings document pass unbound
  exact (nested .primitive).bind fun _ => (nested .semantic).bind fun _ =>
    (nested .light).bind fun _ => (nested .dark).bind fun _ =>
      (Journaled.Nested.report _).bind fun _ => .pure _

/-! ## Attribution -/

/-- The record of an event about the subtree of a section bears the key of that section, and the
record of any other event bears no key of a section from outside. -/
structure Attributed (settings : Settings) (document : Document) (record : Record) : Prop where
  inside : record.event.isOfSection = true → ∃ pass,
    record.event ∈ passEvents settings document pass ∧
    Fields.get? record.entries "section" = some (.str (settings.sectionKey pass.path))
  outside : record.event.isOfSection = false → "section" ∉ Fields.keys record.context

theorem attributed_passRecord (unbound : "section" ∉ Fields.keys context) {event : Event}
    (reported : event ∈ passEvents settings document pass) :
    Attributed settings document (passRecord settings context pass event) := by
  cases about : event.isOfSection with
  | true =>
      rw [passRecord_of_isOfSection about]
      refine ⟨fun _ => ⟨pass, reported, ?_⟩, fun other => absurd (about.symm.trans other) nofun⟩
      rw [Record.get?_entries (Event.section_not_own about) (by decide)]
      exact Fields.get?_concat unbound _
  | false =>
      rw [passRecord, about, if_neg Bool.false_ne_true]
      exact ⟨fun within => absurd (about.symm.trans within) nofun, fun _ => unbound⟩

/-- Every record of a theme tells rightly of which section it is. -/
theorem attributed_of_mem_records (unbound : "section" ∉ Fields.keys context) {record : Record}
    (member : record ∈ records settings document context) :
    Attributed settings document record := by
  rcases List.mem_append.mp member with passed | complete
  · obtain ⟨pass, -, among⟩ := List.mem_flatMap.mp passed
    obtain ⟨event, reported, rfl⟩ := List.mem_map.mp among
    exact attributed_passRecord unbound reported
  · obtain rfl := List.mem_singleton.mp complete
    exact ⟨fun about => absurd about Bool.false_ne_true, fun _ => unbound⟩

/-- Every record of a theme bears the document that was bound around the theme. -/
theorem input_file_of_mem_records {file : Json}
    (bound : Fields.get? context "input_file" = some file) {record : Record}
    (member : record ∈ records settings document context) :
    Fields.get? record.entries "input_file" = some file := by
  rcases List.mem_append.mp member with passed | complete
  · obtain ⟨pass, -, among⟩ := List.mem_flatMap.mp passed
    obtain ⟨event, reported, rfl⟩ := List.mem_map.mp among
    apply Record.input_file_of_prefix (isNote_of_mem_passEvents reported) bound
    rw [passRecord]
    split
    · exact List.prefix_append context _
    · exact List.prefix_refl context
  · obtain rfl := List.mem_singleton.mp complete
    exact Record.input_file_of_prefix rfl bound (List.prefix_refl context)

end Theme
end DesignTokens
