import Railroad.Text.Quoted

/-!
# What can be wrong with JSON text

Reading JSON stops at the first problem.  It lies in the text itself, in its end,
or in data that do not fit what is read.

Main definitions:

- Definition {lit}`Json.Error`: the problems.
- Definition {lit}`Json.DataError.message`: the wording for data that do not fit.
-/

namespace Railroad.Json

/-- What stands in a text where something else is wanted. -/
inductive Found where
  | null
  | boolean (value : Bool)
  | integer (value : Int)
  | real (digits : String)
  | string (value : String)
  | list
  | object
deriving DecidableEq, Repr, Inhabited

/-- The records that can be read. -/
inductive Record where
  | node
  | rule
  | span
deriving DecidableEq, Repr, Inhabited

/-- What is wanted at some place of a text. -/
inductive Wanted where
  | string
  | sequence
  | unit
  | size
  | record (record : Record)
deriving DecidableEq, Repr, Inhabited

/-- How data can fail to fit. -/
inductive DataError where
  /-- A value of another type stands there. -/
  | wrongType (found : Found) (wanted : Wanted)
  /-- The integer is too small. -/
  | outOfRange (value : Int) (wanted : Wanted)
  /-- A record is written as a list that is too short. -/
  | wrongLength (length : Nat) (record : Record)
  /-- A member of an object is missing. -/
  | missingField (name : String)
  /-- A member of an object stands there twice. -/
  | duplicateField (name : String)
  /-- The name is none of the given ones. -/
  | unknownName (name : String) (known : List String)
deriving DecidableEq, Repr, Inhabited

/-- Why a text cannot be read. -/
inductive Error where
  /-- A character stands where it cannot stand. -/
  | malformed
  /-- The text ends too early. -/
  | cutOff
  /-- The data do not fit. -/
  | data (cause : DataError)
deriving DecidableEq, Repr, Inhabited

/-! ## Wording -/

/-- The wording for what was found. -/
def Found.text : Found → String
  | null => "null"
  | boolean value => "boolean `" ++ (if value then "true" else "false") ++ "`"
  | integer value => "integer `" ++ toString value ++ "`"
  | real digits => "floating point `" ++ digits ++ "`"
  | string value => "string " ++ Text.quoted value
  | list => "sequence"
  | object => "map"

/-- The name of a record. -/
def Record.name : Record → String
  | node => "struct Node"
  | rule => "struct Expression"
  | span => "struct Span"

/-- The number of fields of a record. -/
def Record.size : Record → Nat
  | node => 3
  | rule => 2
  | span => 2

/-- The wording for what is wanted. -/
def Wanted.text : Wanted → String
  | string => "a string"
  | sequence => "a sequence"
  | unit => "unit"
  | size => "usize"
  | record r => r.name

/-- The wording for data that do not fit. -/
def DataError.message : DataError → String
  | wrongType found wanted => "invalid type: " ++ found.text ++ ", expected " ++ wanted.text
  | outOfRange value wanted =>
    "invalid value: integer `" ++ toString value ++ "`, expected " ++ wanted.text
  | wrongLength length record =>
    "invalid length " ++ toString length ++ ", expected " ++ record.name ++ " with " ++
      toString record.size ++ " elements"
  | missingField name => "missing field `" ++ name ++ "`"
  | duplicateField name => "duplicate field `" ++ name ++ "`"
  | unknownName name known =>
    "unknown variant `" ++ name ++ "`, expected one of " ++
      String.intercalate ", " (known.map fun k => "`" ++ k ++ "`")

end Railroad.Json
