import DesignTokens.Proofs.Literal.Reading

/-!
# What is denoted

The object literal of a tree denotes the tree, less its parts without a value, unless some name or
scalar in the other parts is written in a way that the language does not read back: a bare name with
a line feed at its end, a carriage return in quotes, or a number that is not finite.
-/

namespace DesignTokens
namespace Literal

/-- Whether the writing of a name denotes the name. -/
def nameIsReadable (name : String) : Bool :=
  if isBare name then name.toList.getLast? != some '\n' else !name.toList.contains '\r'

/-- Whether the writing of a scalar denotes the scalar. -/
def scalarIsReadable : Scalar → Bool
  | .str text => !text.toList.contains '\r'
  | .real (.finite _ _) => true
  | .real _ => false
  | _ => true

/-- Whether the names and the scalars of all parts that are written are denoted. -/
def isReadable (tree : Json) : Bool := tree.passes nameIsReadable scalarIsReadable

theorem beforeNewline_eq_self_iff (cs : List Char) :
    beforeNewline cs = cs ↔ cs.getLast? ≠ some '\n' := by
  by_cases feed : cs.getLast? = some '\n'
  · have shorter : cs.dropLast ≠ cs := by
      intro same
      have length := congrArg List.length same
      rw [List.length_dropLast] at length
      cases cs with
      | nil => cases feed
      | cons c cs => simp at length
    rw [beforeNewline, if_pos feed]
    exact iff_of_false shorter (not_not_intro feed)
  · rw [beforeNewline, if_neg feed]
    exact iff_of_true rfl feed

end Literal

namespace Script

/-! ## The standard dialect -/

theorem isText_standard (c : Char) : standard.isText c = (c != '\r') := by
  by_cases feed : c = '\n'
  · rw [feed]
    rfl
  · by_cases back : c = '\r'
    · rw [back]
      rfl
    · have raw : standard.isRaw c = true := by simp [standard, feed, back]
      rw [Dialect.isText, raw, Bool.true_or, bne_iff_ne.mpr back]

/-- Quotes hold everything but a carriage return. -/
theorem all_isText_standard (cs : List Char) : cs.all standard.isText = !cs.contains '\r' := by
  induction cs with
  | nil => rfl
  | cons c cs ih =>
      rw [List.all_cons, List.contains_cons, isText_standard, ih, Bool.not_or, bne_comm]
      rfl

/-- The word of a bare name is the name without a line feed at its end. -/
theorem standard_stem {name : String} (bare : Literal.isBare name = true) :
    standard.stem name = Literal.beforeNewline name.toList := by
  obtain ⟨tail, whole, feeds⟩ := Literal.exists_beforeNewline name.toList
  have stops : ∀ c ∈ tail.head?, standard.isNamePart c = false := by
    intro c first
    rw [feeds c (List.mem_of_head? first)]
    rfl
  have taken := (takeWhile_dropWhile_append (Literal.stem_of_isBare bare).2 stops).1
  rwa [← whole] at taken

theorem standard_name?_iff (name : String) :
    standard.name? name = some name ↔ Literal.nameIsReadable name = true := by
  rw [Dialect.name?, Literal.nameIsReadable]
  by_cases bare : Literal.isBare name = true
  · have named : standard.isName (standard.stem name) = true := by
      rw [standard_stem bare]
      exact bare
    have same : String.ofList (Literal.beforeNewline name.toList) = name ↔
        Literal.beforeNewline name.toList = name.toList := by
      rw [← String.toList_inj, String.toList_ofList]
    rw [if_pos bare, if_pos bare, if_pos named, standard_stem bare, Option.some.injEq, same,
      Literal.beforeNewline_eq_self_iff, bne_iff_ne]
  · rw [if_neg bare, if_neg bare, all_isText_standard]
    split <;> simp_all

theorem standard_scalar?_iff (leaf : Scalar) :
    standard.scalar? leaf = some leaf ↔ Literal.scalarIsReadable leaf = true := by
  cases leaf with
  | bool value => cases value <;> exact iff_of_true rfl rfl
  | int value => exact iff_of_true (word?_of_number? (number?_intChars value)) rfl
  | real value =>
      cases value with
      | finite negative magnitude =>
          exact iff_of_true (word?_of_number? (number?_finite negative magnitude)) rfl
      | infinite negative => cases negative <;> exact iff_of_false nofun nofun
      | nan => exact iff_of_false nofun nofun
  | str text =>
      rw [Dialect.scalar?, Literal.scalarIsReadable, all_isText_standard]
      split <;> simp_all

end Script

namespace Literal

/-- An object literal denotes the object without the parts that have no value, exactly if all names
and scalars in the other parts are written as the language reads them. -/
theorem read_object_iff_isReadable (indent : Int) (entries : List (String × Json)) :
    Script.read (object indent (.object entries)) = some (Json.object entries).prune ↔
      isReadable (.object entries) = true := by
  have recovered : Script.standard.value? (.object entries) = some (Json.object entries).prune ↔
      isReadable (.object entries) = true :=
    Script.Dialect.value?_eq_some_prune_iff Script.standard_name?_iff Script.standard_scalar?_iff
      rfl
  have unspaced : (object indent (.object entries)).dropWhile Script.isSpace =
      object indent (.object entries) := by
    obtain ⟨tail, written⟩ := exists_object_eq_cons indent entries
    rw [written]
    rfl
  have front := Script.standard.object?_object entries indent []
  rw [List.append_nil] at front
  rw [Script.read, unspaced, front, ← recovered, Option.bind_map]
  exact iff_of_eq (congrArg (· = _) (Option.bind_fun_some _))

-- the line feed is taken for a line break between the name and its colon
example : Script.read (object 0 (.object [("a\n", .int 1)])) = some (.object [("a", .int 1)]) :=
  rfl

end Literal
end DesignTokens
