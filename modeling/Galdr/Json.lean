import Mathlib

/-!
# Documents and codecs

A JSON document is a tree of texts, numbers, lists, and fields. A codec writes the values of a
type as documents and reads documents back, and it carries what reading a written value gives:
the value, or what is kept of it. Codecs compose: for lists, for values that may be missing, and
for the fields of a record.
-/

namespace Galdr

/-- A document. A number is an integer as it is spelled, its sign and its digits, or any other
number, of the type `N`. -/
inductive Json (N : Type)
  | null
  | bool (value : Bool)
  | integer (negative : Bool) (magnitude : ℕ)
  | decimal (value : N)
  | text (value : String)
  | array (items : List (Json N))
  | object (fields : List (String × Json N))

namespace Json

variable {N : Type}

/-- The value of a field. A later field of a name replaces an earlier one. -/
def get (key : String) : Json N → Option (Json N)
  | .object fields => (fields.reverse.find? fun field => field.1 = key).map Prod.snd
  | _ => none

/-- An integer of 64 bits without a sign. -/
def asU64 : Json N → Option ℕ
  | .integer false magnitude => if magnitude < 2 ^ 64 then some magnitude else none
  | _ => none

theorem asU64_integer (magnitude : ℕ) : (.integer false magnitude : Json N).asU64
    = if magnitude < 2 ^ 64 then some magnitude else none := rfl

/-- The name of a variant, and what it holds. -/
def variant : Json N → Except String (String × Json N)
  | .object [(name, value)] => .ok (name, value)
  | _ => .error "invalid type, expected a variant"

end Json

/-- How the values of a type are written and read. -/
structure JsonCodec (N T : Type) where
  /-- Write a value. -/
  encode : T → Json N
  /-- Read a document. -/
  decode : Json N → Except String T
  /-- What is kept of a value that is written. -/
  kept : T → T
  /-- A written value is read as what is kept of it. -/
  decode_encode : ∀ value, decode (encode value) = .ok (kept value)

namespace JsonCodec

variable {N T U : Type}

/-- Every value is kept as it is. -/
def Exact (codec : JsonCodec N T) : Prop := ∀ value, codec.kept value = value

/-- Texts. -/
def text : JsonCodec N String where
  encode := .text
  decode
    | .text value => .ok value
    | _ => .error "invalid type, expected a string"
  kept := id
  decode_encode _ := rfl

/-- Truth values. -/
def bool : JsonCodec N Bool where
  encode := .bool
  decode
    | .bool value => .ok value
    | _ => .error "invalid type, expected a boolean"
  kept := id
  decode_encode _ := rfl

/-- Natural numbers. -/
def nat : JsonCodec N ℕ where
  encode := .integer false
  decode
    | .integer false magnitude => .ok magnitude
    | _ => .error "invalid type, expected an unsigned integer"
  kept := id
  decode_encode _ := rfl

/-- Numbers: those that are spelled as integers are read as well. -/
def number {K : Type} [Field K] : JsonCodec K K where
  encode := .decimal
  decode
    | .decimal value => .ok value
    | .integer negative magnitude => .ok (if negative then -magnitude else magnitude)
    | _ => .error "invalid type, expected a number"
  kept := id
  decode_encode _ := rfl

/-- Lists. -/
def list (codec : JsonCodec N T) : JsonCodec N (List T) where
  encode values := .array (values.map codec.encode)
  decode
    | .array items => items.mapM codec.decode
    | _ => .error "invalid type, expected a sequence"
  kept values := values.map codec.kept
  decode_encode values := by
    show (values.map codec.encode).mapM codec.decode = _
    induction values with
    | nil => rfl
    | cons value values ih =>
      rw [List.map_cons, List.mapM_cons, codec.decode_encode, ih]
      rfl

/-- Read a value, unless it is missing. -/
def decodeOption (decode : Json N → Except String T) : Json N → Except String (Option T)
  | .null => .ok none
  | document => (decode document).map some

theorem decodeOption_of_ne {decode : Json N → Except String T} {document : Json N}
    (h : document ≠ .null) : decodeOption decode document = (decode document).map some := by
  cases document with
  | null => exact absurd rfl h
  | _ => rfl

/-- Values that may be missing; no value is written as one that is. -/
def option (codec : JsonCodec N T) (hnull : ∀ value, codec.encode value ≠ .null) :
    JsonCodec N (Option T) where
  encode
    | none => .null
    | some value => codec.encode value
  decode := decodeOption codec.decode
  kept := Option.map codec.kept
  decode_encode value := by
    cases value with
    | none => rfl
    | some value =>
      show decodeOption codec.decode (codec.encode value) = _
      rw [decodeOption_of_ne (hnull value), codec.decode_encode]
      rfl

/-- A field that must be there. -/
def field (codec : JsonCodec N T) (key : String) (document : Json N) : Except String T :=
  match document.get key with
  | some value => codec.decode value
  | none => .error ("missing field `" ++ key ++ "`")

/-- A field that has a default. -/
def fieldOr (codec : JsonCodec N T) (key : String) (default : T) (document : Json N) :
    Except String T :=
  match document.get key with
  | some value => codec.decode value
  | none => .ok default

/-- A field that was written is read. -/
theorem field_encode (codec : JsonCodec N T) {key : String} {document : Json N} {value : T}
    (h : document.get key = some (codec.encode value)) :
    codec.field key document = .ok (codec.kept value) := by
  unfold field
  rw [h]
  exact codec.decode_encode value

theorem fieldOr_encode (codec : JsonCodec N T) {key : String} {default : T} {document : Json N}
    {value : T} (h : document.get key = some (codec.encode value)) :
    codec.fieldOr key default document = .ok (codec.kept value) := by
  unfold fieldOr
  rw [h]
  exact codec.decode_encode value

end JsonCodec

end Galdr
