import SignetFederation.Json.Reader
import SignetFederation.Json.Value

/-!
# Values with a JSON form

A type has a JSON form if its values can be written as JSON and read from it. A written value need
not be the only text that reads as it: readers also take records from arrays and skip members that
they do not know.
-/

namespace SignetFederation

/-- Types whose values are written as JSON and read from it. -/
class JsonForm (α : Type) where
  toJson : α → Json.Value
  reader : Json.Reader α

namespace JsonForm

variable {α : Type} [JsonForm α]

/-- The compact text of a value. -/
def write (a : α) : String := (toJson a).compact

/-- The value that a text holds. -/
def read (s : String) : Except Json.Fault α := Json.parse reader s

instance : JsonForm String := ⟨.str, Json.string⟩

instance : JsonForm Bool := ⟨.bool, Json.boolean⟩

instance : JsonForm UInt64 where
  toJson n := .nat n.toNat
  reader := UInt64.ofNat <$> Json.natural 18446744073709551616

instance : JsonForm UInt8 where
  toJson n := .nat n.toNat
  reader := UInt8.ofNat <$> Json.natural 256

instance : JsonForm (List α) where
  toJson items := .arr (items.map toJson)
  reader := Json.array reader

end JsonForm

/-- A field of a record whose value has a JSON form. -/
def Json.member {σ β : Type} [JsonForm β] (name : String) (get : σ → Option β)
    (set : β → σ → σ) : Json.Field σ :=
  Json.field name get set JsonForm.reader

/-- A field for a number that counts something. -/
def Json.count {σ : Type} (name : String) (get : σ → Option Nat) (set : Nat → σ → σ) :
    Json.Field σ :=
  Json.field name get set (Json.natural 18446744073709551616)

end SignetFederation
