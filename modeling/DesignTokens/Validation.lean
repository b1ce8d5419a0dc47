import DesignTokens.Failure
import DesignTokens.Log.Event
import DesignTokens.Shadow
import DesignTokens.Text.Digit

/-!
# Structural validation

A document is valid if each value on the way is an object that either has both a type and a value,
or neither, and if every value of a shadow type consists of complete shadow descriptors.  Lists, the
entries with numeric names, and objects with a theme list are not looked into.  The first anomaly in
document order decides.
-/

namespace DesignTokens

/-- What is wrong with a value. -/
inductive Defect
  /-- It is no object. -/
  | notAnObject
  /-- It has a value but no type. -/
  | valueWithoutType
  /-- It has a type but no value. -/
  | typeWithoutValue
  /-- It has a shadow type but its value is not made of complete shadow descriptors. -/
  | incompleteShadow
  deriving DecidableEq, Repr

namespace Defect

/-- A defect in words. -/
def reason : Defect → String
  | notAnObject => "not an object"
  | valueWithoutType => Malformation.valueWithoutType.reason
  | typeWithoutValue => Malformation.typeWithoutValue.reason
  | incompleteShadow => "shadow value must have x, y and type 'dropShadow'"

end Defect

/-- What ends a validation: a defect, or a type that cannot be looked up. -/
inductive Anomaly
  /-- A defect. -/
  | defect (defect : Defect)
  /-- The type is a list or an object. -/
  | compositeType (type : Json)

/-- The outcome of a validation. -/
inductive Verdict
  /-- There is no defect. -/
  | valid
  /-- There is a defect at the path. -/
  | invalid (path : TokenPath) (reason : String)
  deriving DecidableEq, Repr

namespace Verdict

/-- Whether there is no defect. -/
def isValid : Verdict → Bool
  | valid => true
  | invalid _ _ => false

/-- Where the defect is. -/
def path : Verdict → TokenPath
  | valid => []
  | invalid path _ => path

/-- What the defect is. -/
def reason : Verdict → String
  | valid => ""
  | invalid _ reason => reason

/-- The failure that a verdict amounts to. -/
def failure? : Verdict → Option Failure
  | valid => none
  | invalid path reason => some (.invalidTokenStructure path reason)

/-- What is reported about a verdict. -/
def events : Verdict → List Event
  | valid => []
  | invalid path reason => [.structureInvalid path reason]

end Verdict

namespace Validation

/-- Whether a value consists of complete shadow descriptors. -/
def isShadowValue (value : Json) : Bool :=
  Shadow.isComplete value ||
    match value with
    | .object entries => !entries.isEmpty && (Fields.values entries).all Shadow.isComplete
    | .list items => !items.isEmpty && items.all Shadow.isComplete
    | _ => false

/-- The anomaly of an object with a type and a value. -/
def leafAnomaly (type value : Json) : Option Anomaly :=
  match type with
  | .list _ => some (.compositeType type)
  | .object _ => some (.compositeType type)
  | .scalar (.str name) =>
      if Shadow.types.contains name && !isShadowValue value then some (.defect .incompleteShadow)
      else none
  | _ => none

mutual

/-- The first anomaly in a value at a path, and where it is. -/
def firstAnomaly (path : TokenPath) : Json → Option (TokenPath × Anomaly)
  | .null => some (path, .defect .notAnObject)
  | .scalar _ => some (path, .defect .notAnObject)
  | .list _ => none
  | .object entries =>
      if Fields.has entries themesKey then none
      else
        match Node.shape entries with
        | .leaf type value => (leafAnomaly type value).map fun anomaly => (path, anomaly)
        | .malformed .valueWithoutType => some (path, .defect .valueWithoutType)
        | .malformed _ => some (path, .defect .typeWithoutValue)
        | .container => firstAnomalyIn path entries

/-- The first anomaly in the entries of an object at a path. -/
def firstAnomalyIn (path : TokenPath) : List (String × Json) → Option (TokenPath × Anomaly)
  | [] => none
  | (key, value) :: rest =>
      if Text.isNumeral key then firstAnomalyIn path rest
      else (firstAnomaly (path ++ [key]) value).or (firstAnomalyIn path rest)

end

/-- The verdict on a value. -/
def verdict (value : Json) : Except Fault Verdict :=
  match firstAnomaly [] value with
  | none => .ok .valid
  | some (path, .defect defect) => .ok (.invalid path defect.reason)
  | some (_, .compositeType type) => .error (.compositeType type.kind)

end Validation
end DesignTokens
