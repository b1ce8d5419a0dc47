import DesignTokens.Proofs.Json.Unordered
import DesignTokens.Proofs.Resolve.Names
import DesignTokens.Proofs.Theme
import DesignTokens.Proofs.Validation.FirstAnomaly

/-!
# Reading a theme back

The merged theme holds the trees of all passes.  Those of the primitive tokens and of the color
schemes can be read back from it, and so can every semantic token but one that is called as the
color schemes are: the color schemes stand in its place.  A theme has such a token just if the
document has it, since no flat name and no reshaped container is called so.
-/

namespace DesignTokens

open Json (SameTree)

/-- The key of the color schemes among the semantic tokens. -/
def schemesKey : String := "colorScheme"

namespace ThemePass

/-- The keys that lead to the tree of a pass in the merged theme. -/
def mergedPath : ThemePass → TokenPath
  | primitive => ["primitive"]
  | semantic => ["semantic"]
  | light => ["semantic", schemesKey, "light"]
  | dark => ["semantic", schemesKey, "dark"]

end ThemePass

namespace Resolve

theorem mem_keys_keyed_iff {key name : String} {result : Option Json} :
    name ∈ Fields.keys (keyed key result) ↔ name = key ∧ result ≠ none := by
  cases result <;> simp [keyed]

/-- A walk gives an entry called as the color schemes are just if a child is called so and has a
value. -/
theorem schemesKey_mem_nodeEntries_iff (path : TokenPath) (children : Fields Node) :
    schemesKey ∈ Fields.keys (nodeEntries path children).value ↔ ∃ child ∈ children,
      child.1 = schemesKey ∧ (node (path ++ [schemesKey]) child.2).value ≠ none := by
  have plain : ∀ child, nodeChild path schemesKey child = plainChild node path schemesKey child := by
    intro child
    have noSection : Dispatch.sectionKeys.contains schemesKey = false := by decide
    have noParent : Rename.isParent schemesKey = false := by decide
    rw [nodeChild_of_other_key noSection, noParent, Bool.and_false, if_neg Bool.false_ne_true]
  have noFlatName : schemesKey ∉ Rename.names := by decide
  rw [nodeEntries_eq_gather, mem_keys_gather]
  apply exists_congr
  rintro ⟨key, child⟩
  apply and_congr_right
  intro _
  constructor
  · rintro ⟨-, member⟩
    obtain rfl : schemesKey = key := (name_of_mem_nodeChild member).resolve_right noFlatName
    rw [plain, plainChild, Logged.map_value, mem_keys_keyed_iff] at member
    exact ⟨rfl, member.2⟩
  · rintro ⟨rfl, valued⟩
    have token : isMetadata schemesKey = false := by decide
    refine ⟨token, ?_⟩
    rw [plain, plainChild, Logged.map_value, mem_keys_keyed_iff]
    exact ⟨rfl, valued⟩

end Resolve

/-- The semantic tokens of a document include one with a value that is called as the color schemes
are. -/
def Document.NamesSchemes (settings : Settings) (document : Document) : Prop :=
  ∃ child ∈ document.tokens (settings.sectionKey ThemePass.semantic.path),
    child.1 = schemesKey ∧
      (Resolve.node (ThemePass.semantic.path ++ [schemesKey]) child.2).value ≠ none

namespace Theme

/-! ## Reading back -/

theorem get?_semanticWithSchemes (theme : Theme) (key : String) :
    Fields.get? theme.semanticWithSchemes key =
      if schemesKey = key then some (.object theme.colorScheme)
      else Fields.get? theme.semantic key :=
  Fields.get?_put theme.semantic schemesKey (.object theme.colorScheme) key

/-- The trees of all passes but the semantic one stand in the merged theme. -/
theorem follow?_merged (theme : Theme) {pass : ThemePass} (other : pass ≠ .semantic) :
    (Json.object theme.merged).follow? pass.mergedPath = some (.object (theme.tree pass)) := by
  have schemes := theme.get?_semanticWithSchemes schemesKey
  rw [if_pos rfl] at schemes
  cases pass with
  | primitive => rfl
  | semantic => exact absurd rfl other
  | light | dark =>
      simp [ThemePass.mergedPath, Json.follow?, Json.get?, merged, Fields.get?, schemes,
        colorScheme, tree]

/-- Every semantic token but one called as the color schemes are stands in the merged theme. -/
theorem follow?_merged_semantic (theme : Theme) {key : String} (other : key ≠ schemesKey) :
    (Json.object theme.merged).follow? ["semantic", key] = Fields.get? theme.semantic key := by
  have found := theme.get?_semanticWithSchemes key
  rw [if_neg other.symm] at found
  simp [Json.follow?, Json.get?, merged, Fields.get?, found]

/-! ## Equal themes -/

/-- Two themes have the same trees, if neither the order of entries counts nor a semantic token that
is called as the color schemes are. -/
def SameButSchemes (theme other : Theme) : Prop :=
  (∀ pass ≠ ThemePass.semantic,
    SameTree (some (.object (theme.tree pass))) (some (.object (other.tree pass)))) ∧
  ∀ key ≠ schemesKey, SameTree (Fields.get? theme.semantic key) (Fields.get? other.semantic key)

theorem sameTree_colorScheme_iff (theme other : Theme) :
    SameTree (some (.object theme.colorScheme)) (some (.object other.colorScheme)) ↔
      SameTree (some (.object theme.light)) (some (.object other.light)) ∧
        SameTree (some (.object theme.dark)) (some (.object other.dark)) := by
  rw [Json.sameTree_object_iff]
  constructor
  · intro same
    exact ⟨same "light", same "dark"⟩
  · rintro ⟨light, dark⟩ key
    simp only [colorScheme, Fields.get?]
    split
    · exact light
    · split
      · exact dark
      · rfl

theorem sameTree_semanticWithSchemes_iff (theme other : Theme) :
    SameTree (some (.object theme.semanticWithSchemes))
        (some (.object other.semanticWithSchemes)) ↔
      SameTree (some (.object theme.colorScheme)) (some (.object other.colorScheme)) ∧
        ∀ key ≠ schemesKey,
          SameTree (Fields.get? theme.semantic key) (Fields.get? other.semantic key) := by
  rw [Json.sameTree_object_iff]
  simp only [get?_semanticWithSchemes]
  constructor
  · intro same
    refine ⟨by simpa using same schemesKey, fun key different => ?_⟩
    simpa [different.symm] using same key
  · rintro ⟨schemes, others⟩ key
    split
    · exact schemes
    · rename_i different
      exact others key (Ne.symm different)

/-- Merged themes are the same just if the themes are the same but for a semantic token that is
called as the color schemes are. -/
theorem sameTree_merged_iff (theme other : Theme) :
    SameTree (some (.object theme.merged)) (some (.object other.merged)) ↔
      theme.SameButSchemes other := by
  have parts : SameTree (some (.object theme.merged)) (some (.object other.merged)) ↔
      SameTree (some (.object theme.primitive)) (some (.object other.primitive)) ∧
        SameTree (some (.object theme.semanticWithSchemes))
          (some (.object other.semanticWithSchemes)) := by
    rw [Json.sameTree_object_iff]
    constructor
    · intro same
      exact ⟨same "primitive", same "semantic"⟩
    · rintro ⟨primitive, semantic⟩ key
      simp only [merged, Fields.get?]
      split
      · exact primitive
      · split
        · exact semantic
        · rfl
  rw [parts, sameTree_semanticWithSchemes_iff, sameTree_colorScheme_iff]
  constructor
  · rintro ⟨primitive, ⟨light, dark⟩, others⟩
    refine ⟨fun pass different => ?_, others⟩
    cases pass with
    | primitive => exact primitive
    | semantic => exact absurd rfl different
    | light => exact light
    | dark => exact dark
  · rintro ⟨trees, others⟩
    exact ⟨trees .primitive (by decide), ⟨trees .light (by decide), trees .dark (by decide)⟩, others⟩

/-- Themes without such a token are the same if they are the same but for it. -/
theorem SameButSchemes.sameTree {theme other : Theme} (same : theme.SameButSchemes other)
    (free : schemesKey ∉ Fields.keys theme.semantic)
    (otherFree : schemesKey ∉ Fields.keys other.semantic) (pass : ThemePass) :
    SameTree (some (.object (theme.tree pass))) (some (.object (other.tree pass))) := by
  by_cases semantic : pass = .semantic
  · subst semantic
    rw [tree, tree, Json.sameTree_object_iff]
    intro key
    by_cases schemes : key = schemesKey
    · rw [schemes, (Fields.get?_eq_none_iff_not_mem _ _).mpr free,
        (Fields.get?_eq_none_iff_not_mem _ _).mpr otherFree]
      rfl
    · exact same.2 key schemes
  · exact same.1 pass semantic

/-- Equal merged themes are made of the same trees in the same order, but for the token in whose
place the color schemes stand. -/
theorem eq_of_merged_eq {theme other : Theme} (same : theme.merged = other.merged) :
    (∀ pass ≠ ThemePass.semantic, theme.tree pass = other.tree pass) ∧
      Fields.without theme.semantic [schemesKey] = Fields.without other.semantic [schemesKey] := by
  constructor
  · intro pass different
    have here := theme.follow?_merged different
    rw [same, other.follow?_merged different] at here
    exact (Json.object.inj (Option.some.inj here)).symm
  · have semantic : theme.semanticWithSchemes = other.semanticWithSchemes := by
      simpa [merged] using (List.cons.inj (List.cons.inj same).2).1
    have dropped : schemesKey ∈ [schemesKey] := List.mem_singleton_self _
    rw [← Fields.without_put theme.semantic dropped (.object theme.colorScheme),
      ← Fields.without_put other.semantic dropped (.object other.colorScheme)]
    exact congrArg (Fields.without · [schemesKey]) semantic

theorem eq_of_merged_eq_of_free {theme other : Theme} (same : theme.merged = other.merged)
    (free : schemesKey ∉ Fields.keys theme.semantic)
    (otherFree : schemesKey ∉ Fields.keys other.semantic) : theme = other := by
  have kept : ∀ fields : Fields Json, schemesKey ∉ Fields.keys fields →
      Fields.without fields [schemesKey] = fields := by
    intro fields fresh
    apply Fields.without_eq_self
    intro entry member called
    exact fresh (List.mem_singleton.mp called ▸ Fields.mem_keys_of_mem member)
  obtain ⟨trees, semantic⟩ := eq_of_merged_eq same
  rw [kept _ free, kept _ otherFree] at semantic
  have primitive := trees .primitive (by decide)
  have light := trees .light (by decide)
  have dark := trees .dark (by decide)
  cases theme
  cases other
  simp_all [tree]

/-- The trees of every theme can be read back from the merged theme, except for a semantic token
that is called as the color schemes are, which the theme has just if the document has it.  So merged
themes are the same just if the themes are the same but for such tokens, and themes without such
tokens are equal if merged they are. -/
theorem merged_gives_back (settings : Settings) (document : Document) :
    ∃ theme, (ofDocument settings document).Gives theme ∧
      (∀ pass ≠ ThemePass.semantic,
        (Json.object theme.merged).follow? pass.mergedPath = some (.object (theme.tree pass))) ∧
      (∀ key ≠ schemesKey,
        (Json.object theme.merged).follow? ["semantic", key] = Fields.get? theme.semantic key) ∧
      (schemesKey ∈ Fields.keys theme.semantic ↔ document.NamesSchemes settings) ∧
      ∀ other : Theme,
        (SameTree (some (.object theme.merged)) (some (.object other.merged)) ↔
          theme.SameButSchemes other) ∧
        (theme.merged = other.merged →
          (∀ pass ≠ ThemePass.semantic, theme.tree pass = other.tree pass) ∧
            Fields.without theme.semantic [schemesKey] =
              Fields.without other.semantic [schemesKey]) ∧
        (schemesKey ∉ Fields.keys theme.semantic → schemesKey ∉ Fields.keys other.semantic →
          (theme.merged = other.merged → theme = other) ∧
          (SameTree (some (.object theme.merged)) (some (.object other.merged)) →
            ∀ pass, SameTree (some (.object (theme.tree pass)))
              (some (.object (other.tree pass))))) := by
  obtain ⟨theme, gives, trees⟩ := exists_ofDocument settings document
  refine ⟨theme, gives, fun pass different => theme.follow?_merged different,
    fun key different => theme.follow?_merged_semantic different, ?_, ?_⟩
  · have semantic : theme.semantic = (walk settings document .semantic).value := trees .semantic
    rw [semantic, walk, Resolve.schemesKey_mem_nodeEntries_iff, Document.NamesSchemes]
  · intro other
    refine ⟨sameTree_merged_iff theme other, eq_of_merged_eq, ?_⟩
    intro free otherFree
    refine ⟨fun same => eq_of_merged_eq_of_free same free otherFree, ?_⟩
    exact fun same => ((sameTree_merged_iff theme other).mp same).sameTree free otherFree

/-- A document with an accent among its semantic tokens and a shade in its light color scheme. -/
def shadedDocument : Document :=
  [("aura/semantic", .object [("accent", .str "red")]),
    ("aura/semantic/light", .object [("shade", .str "white")])]

/-- The theme of that document. -/
def shadedTheme : Theme := ⟨[], [("accent", .str "red")], [("shade", .str "white")], []⟩

/-- The shade and the accent can be read back, and no other theme without a token called as the
color schemes are is merged to the same. -/
theorem shadedDocument_given_back :
    ∃ settings, Settings.ofEntries [] = .ok settings ∧
      ∃ theme, (ofDocument settings shadedDocument).Gives theme ∧
        (Json.object theme.merged).follow? ["semantic", "colorScheme", "light"] =
          some (.object [("shade", .str "white")]) ∧
        (Json.object theme.merged).follow? ["semantic", "accent"] = some (.str "red") ∧
        ∀ other : Theme, "colorScheme" ∉ Fields.keys other.semantic →
          theme.merged = other.merged → theme = other := by
  have known : ∃ settings, Settings.ofEntries [] = .ok settings ∧
      (ofDocument settings shadedDocument).Gives shadedTheme := ⟨_, rfl, fun _ => rfl⟩
  obtain ⟨settings, read, known⟩ := known
  obtain ⟨theme, gives, schemes, tokens, -, alike⟩ := merged_gives_back settings shadedDocument
  obtain rfl := known.unique gives
  have light : ThemePass.light ≠ .semantic := by decide
  have accent : "accent" ≠ schemesKey := by decide
  have free : schemesKey ∉ Fields.keys shadedTheme.semantic := by decide
  exact ⟨settings, read, shadedTheme, gives, schemes .light light, tokens "accent" accent,
    fun other otherFree => ((alike other).2.2 free otherFree).1⟩

/-- A document with a semantic token that is called as the color schemes are. -/
def schemedDocument : Document := [("aura/semantic", .object [(schemesKey, .str "auto")])]

/-- The token is lost: the empty document has the same merged theme. -/
theorem schemedDocument_not_given_back :
    ∃ settings, Settings.ofEntries [] = .ok settings ∧
      ∃ theme other, (ofDocument settings schemedDocument).Gives theme ∧
        (ofDocument settings []).Gives other ∧ theme.merged = other.merged ∧
        theme.semantic ≠ other.semantic ∧
        Fields.get? theme.semantic "colorScheme" = some (.str "auto") ∧
        (Json.object theme.merged).follow? ["semantic", "colorScheme"] ≠ some (.str "auto") :=
  ⟨_, rfl, _, _, fun _ => rfl, fun _ => rfl, rfl, nofun, rfl, nofun⟩

end Theme
end DesignTokens
