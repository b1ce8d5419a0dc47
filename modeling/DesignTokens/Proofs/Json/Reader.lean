import DesignTokens.Json.Reader
import DesignTokens.Proofs.Token.Tree

/-!
# Documents that are read

Every document that is read from a text is keyed: the machine assigns each member to the entries
that its object has so far, and so no entry is named twice.
-/

namespace DesignTokens
namespace Json

theorem isKeyed_put {entries : Fields Json} (keyed : (Json.object entries).isKeyed = true)
    (name : String) {value : Json} (keyedValue : value.isKeyed = true) :
    (Json.object (entries.put name value)).isKeyed = true := by
  obtain ⟨distinct, values⟩ := (isKeyed_object entries).mp keyed
  rw [isKeyed_object]
  refine ⟨Fields.nodup_keys_put distinct name value, ?_⟩
  intro entry member
  rcases Fields.mem_put member with known | rfl
  · exact values entry known
  · exact keyedValue

namespace Lexeme

/-- Whether a value that is read in one piece is keyed. -/
def isKeyed : Lexeme → Bool
  | .atom value => value.isKeyed
  | _ => true

theorem isKeyed_ofText (offset : Nat) (rest : List Char) :
    (ofText offset rest).1.isKeyed = true := by
  unfold ofText
  split <;> rfl

theorem isKeyed_ofNumber? {negative : Bool} {cs : List Char} {lexeme : Lexeme} {width : Nat}
    (found : ofNumber? negative cs = some (lexeme, width)) : lexeme.isKeyed = true := by
  have of_some : ∀ {result : Lexeme × Nat}, result.1.isKeyed = true →
      some result = some (lexeme, width) → lexeme.isKeyed = true := by
    intro result keyed same
    rwa [Option.some.inj same] at keyed
  simp only [ofNumber?] at found
  by_cases empty : (wholePart cs).isEmpty = true
  · rw [if_pos empty] at found
    simp at found
  · rw [if_neg empty] at found
    split at found
    · exact of_some rfl found
    · split at found
      · split at found
        · exact of_some rfl found
        · exact of_some rfl found
      · exact of_some rfl found

theorem isKeyed_ofName? {cs : List Char} {lexeme : Lexeme} {width : Nat}
    (found : ofName? cs = some (lexeme, width)) : lexeme.isKeyed = true := by
  obtain ⟨entry, listed, same⟩ := Option.map_eq_some_iff.mp found
  have named : ∀ entry ∈ names, entry.2.isKeyed = true := by decide
  obtain ⟨rfl, -⟩ := Prod.mk.inj same
  exact named entry (List.mem_of_find?_eq_some listed)

theorem isKeyed_first (offset : Nat) (c : Char) (rest : List Char) :
    (first offset c rest).1.isKeyed = true := by
  have named : ∀ cs, ((ofName? cs).getD (.other, 1)).1.isKeyed = true := by
    intro cs
    cases found : ofName? cs with
    | none => rfl
    | some lexeme => exact isKeyed_ofName? found
  unfold first
  split
  · rfl
  · rfl
  · rfl
  · rfl
  · rfl
  · rfl
  · exact isKeyed_ofText offset rest
  · split
    · rename_i found
      exact isKeyed_ofNumber? found
    · exact named _
  · cases found : ofNumber? false (c :: rest) with
    | none => exact named _
    | some lexeme => exact isKeyed_ofNumber? found

/-- All values of a row of lexemes are keyed. -/
theorem isKeyed_row (inside offset : Nat) (cs : List Char) :
    ∀ lexeme ∈ row inside offset cs, lexeme.2.isKeyed = true := by
  induction cs generalizing inside offset with
  | nil => simp [row, isKeyed]
  | cons c rest ih =>
      cases inside with
      | succ inside => exact ih inside (offset + 1)
      | zero =>
          simp only [row]
          split
          · exact ih 0 (offset + 1)
          · rw [List.forall_mem_cons]
            refine ⟨isKeyed_first offset c rest, ?_⟩
            split
            · exact ih _ (offset + 1)
            · simp

end Lexeme

/-! ## The machine -/

/-- An open list or object is keyed if what it has so far is. -/
def Frame.IsKeyed : Frame → Prop
  | .list reversed => ∀ item ∈ reversed, item.isKeyed = true
  | .object entries _ => (Json.object entries).isKeyed = true

/-- An expectation is keyed if the value or the entries that it remembers are. -/
def Expectation.IsKeyed : Expectation → Prop
  | .name entries => (Json.object entries).isKeyed = true
  | .colon entries _ => (Json.object entries).isKeyed = true
  | .after complete => complete.isKeyed = true
  | _ => True

/-- A turn is keyed if all that it goes on with or gives out is. -/
def Turn.IsKeyed : Turn → Prop
  | .next expectation stack => expectation.IsKeyed ∧ ∀ frame ∈ stack, frame.IsKeyed
  | .done value => value.isKeyed = true
  | _ => True

theorem beginValue_isKeyed {stack : List Frame} (keyed : ∀ frame ∈ stack, frame.IsKeyed)
    (offset : Nat) {lexeme : Lexeme} (keyedLexeme : lexeme.isKeyed = true) :
    (beginValue stack offset lexeme).IsKeyed := by
  cases lexeme with
  | openList =>
      refine ⟨trivial, List.forall_mem_cons.mpr ⟨?_, keyed⟩⟩
      simp [Frame.IsKeyed]
  | openObject => exact ⟨trivial, keyed⟩
  | text value => exact ⟨rfl, keyed⟩
  | atom value => exact ⟨keyedLexeme, keyed⟩
  | _ => trivial

theorem beginMember_isKeyed {entries : Fields Json}
    (keyedEntries : (Json.object entries).isKeyed = true) {stack : List Frame}
    (keyed : ∀ frame ∈ stack, frame.IsKeyed) (offset : Nat) (lexeme : Lexeme) :
    (beginMember entries stack offset lexeme).IsKeyed := by
  cases lexeme with
  | text name => exact ⟨keyedEntries, keyed⟩
  | _ => trivial

/-- The machine stays keyed with every lexeme. -/
theorem turn_isKeyed {expectation : Expectation} (keyed : expectation.IsKeyed) {stack : List Frame}
    (keyedStack : ∀ frame ∈ stack, frame.IsKeyed) (offset : Nat) {lexeme : Lexeme}
    (keyedLexeme : lexeme.isKeyed = true) : (turn expectation stack offset lexeme).IsKeyed := by
  unfold turn
  split
  · exact beginValue_isKeyed keyedStack offset keyedLexeme
  · exact ⟨rfl, (List.forall_mem_cons.mp keyedStack).2⟩
  · exact beginValue_isKeyed keyedStack offset keyedLexeme
  · exact beginMember_isKeyed keyed keyedStack offset _
  · exact ⟨rfl, keyedStack⟩
  · exact beginMember_isKeyed rfl keyedStack offset _
  · exact ⟨trivial, List.forall_mem_cons.mpr ⟨keyed, keyedStack⟩⟩
  · exact keyed
  · obtain ⟨items, others⟩ := List.forall_mem_cons.mp keyedStack
    exact ⟨trivial, List.forall_mem_cons.mpr ⟨List.forall_mem_cons.mpr ⟨keyed, items⟩, others⟩⟩
  · obtain ⟨items, others⟩ := List.forall_mem_cons.mp keyedStack
    refine ⟨?_, others⟩
    rw [Expectation.IsKeyed, isKeyed_list]
    intro item member
    rcases List.mem_cons.mp (List.mem_reverse.mp member) with rfl | known
    · exact keyed
    · exact items item known
  · obtain ⟨entries, others⟩ := List.forall_mem_cons.mp keyedStack
    exact ⟨isKeyed_put entries _ keyed, others⟩
  · obtain ⟨entries, others⟩ := List.forall_mem_cons.mp keyedStack
    exact ⟨isKeyed_put entries _ keyed, others⟩
  · trivial

theorem isKeyed_of_run {text : List Char} {expectation : Expectation} (keyed : expectation.IsKeyed)
    {stack : List Frame} (keyedStack : ∀ frame ∈ stack, frame.IsKeyed) {row : List (Nat × Lexeme)}
    (keyedRow : ∀ lexeme ∈ row, lexeme.2.isKeyed = true) {document : Json}
    (read : run text expectation stack row = .ok document) : document.isKeyed = true := by
  induction row generalizing expectation stack with
  | nil => simp [run] at read
  | cons lexeme rest ih =>
      obtain ⟨keyedLexeme, keyedRest⟩ := List.forall_mem_cons.mp keyedRow
      have turned := turn_isKeyed keyed keyedStack lexeme.1 keyedLexeme
      rw [run] at read
      split at read
      · rename_i next
        rw [next] at turned
        exact ih turned.1 turned.2 keyedRest read
      · rename_i done
        rw [done] at turned
        exact Except.ok.inj read ▸ turned
      · simp at read
      · simp at read

/-- A document that is read from a text is keyed. -/
theorem isKeyed_of_read {text : String} {document : Json} (read : Json.read text = .ok document) :
    document.isKeyed = true := by
  have start : Expectation.value.IsKeyed := trivial
  simp only [Json.read] at read
  split at read
  · simp at read
  · exact isKeyed_of_run start (by simp) (Lexeme.isKeyed_row 0 0 _) read

end Json
end DesignTokens
