import StrategyDesk.Calendar.Reader
import StrategyDesk.Json.Value

/-!
This module contains the forms that values take in JSON, and the making of such forms for records
and for named values.
-/

namespace StrategyDesk

/-- What counts as no content where a name is the one member of an object. -/
inductive NoContent where
  | null
  | nullOrEmpty
  deriving Repr, DecidableEq

def NoContent.covers : NoContent → Json → Bool
  | _, .null => true
  | .nullOrEmpty, .object [] => true
  | _, _ => false

class JsonForm (α : Type) where
  toJson : α → Json
  ofJson? : NoContent → Json → Option α

export JsonForm (toJson)

namespace JsonForm

instance : JsonForm Bool where
  toJson := .bool
  ofJson?
    | _, .bool b => some b
    | _, _ => none

instance : JsonForm String where
  toJson := .string
  ofJson?
    | _, .string s => some s
    | _, _ => none

instance : JsonForm Nat where
  toJson n := .int n
  ofJson?
    | _, .int n => if 0 ≤ n && n < Nat.pow 2 64 then some n.toNat else none
    | _, _ => none

instance : JsonForm Float where
  toJson := Json.ofFloat
  ofJson?
    | _, .int n => some (Binary64.nearest (n < 0) n.natAbs 1)
    | _, .float x => some x
    | _, _ => none

instance : JsonForm Instant where
  toJson t := .string t.rfc3339
  ofJson?
    | _, .string s => Instant.readRelaxed s.toList
    | _, _ => none

instance {α : Type} [JsonForm α] : JsonForm (List α) where
  toJson xs := .array (xs.map toJson)
  ofJson?
    | void, .array elements => elements.mapM (ofJson? void)
    | _, _ => none

instance {α : Type} [JsonForm α] : JsonForm (Option α) where
  toJson
    | some x => toJson x
    | none => .null
  ofJson?
    | _, .null => some none
    | void, j => (ofJson? void j).map some

/-- A value is written as its name. An object with the name alone and no content is read as well. -/
@[reducible]
def ofNames {α : Type} (name : α → String) (ofName? : String → Option α) : JsonForm α where
  toJson x := .string (name x)
  ofJson?
    | _, .string s => ofName? s
    | void, .object [(s, content)] => if void.covers content then ofName? s else none
    | _, _ => none

def read? {α : Type} [JsonForm α] (j : Json) : Option α :=
  ofJson? .null j

end JsonForm

namespace Json

structure Fields where
  values : List (String × Json)
  void : NoContent

/--
The fields of a record: by their names in an object, by their places in an array. An array must not
have more elements than there are fields.
-/
def fields? (j : Json) (names : List String) (void : NoContent) : Option Fields :=
  match j with
  | .object members => some { values := members, void }
  | .array elements =>
    if elements.length ≤ names.length then some { values := names.zip elements, void } else none
  | _ => none

/--
The kind of a value and where its fields are. The kind is a member of an object, beside the fields,
and the first element of an array, before them.
-/
def tagged? (j : Json) (tag : String) : Option (String × Json) :=
  match j with
  | .object members =>
    match members.lookup tag with
    | some (.string kind) => some (kind, j)
    | _ => none
  | .array (.string kind :: elements) => some (kind, .array elements)
  | _ => none

namespace Fields

variable {α : Type} [JsonForm α]

def required (fs : Fields) (name : String) : Option α :=
  (fs.values.lookup name).bind (JsonForm.ofJson? fs.void)

def withDefault (fs : Fields) (name : String) (default : α) : Option α :=
  match fs.values.lookup name with
  | none => some default
  | some j => JsonForm.ofJson? fs.void j

def optional (fs : Fields) (name : String) : Option (Option α) :=
  fs.withDefault name none

end Fields

def member {α : Type} [JsonForm α] (name : String) (x : α) : String × Option Json :=
  (name, some (toJson x))

def memberIf {α : Type} [JsonForm α] (name : String) (x : Option α) : String × Option Json :=
  (name, x.map toJson)

end Json
end StrategyDesk
