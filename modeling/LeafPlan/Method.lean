import LeafPlan.Json.Printer

/-!
# Stringification methods

A method turns the items of a list into text. Methods are compared by their handles: two methods with
the same name, or even the same function, need not be the same method.
-/

namespace LeafPlan

inductive Builtin where
  | json
  | join
deriving DecidableEq

/-- The identity of a method. -/
inductive Handle where
  | builtin (b : Builtin)
  | custom (id : Nat)
deriving DecidableEq

structure Method where
  name : String
  handle : Handle
  apply : List Json → String

namespace Builtin

def all : List Builtin := [json, join]

def name : Builtin → String
  | json => "json"
  | join => "join"

def ofName? (s : String) : Option Builtin := all.find? fun b => b.name = s

/-- An item of a joined list: a string stands bare, all else in its compact form. -/
def piece : Json → String
  | .string s => s
  | d => d.compact

def apply : Builtin → List Json → String
  | json, items => (Json.array items).compact
  | join, items => ",".intercalate (items.map piece)

def method (b : Builtin) : Method := ⟨b.name, .builtin b, b.apply⟩

end Builtin

namespace Method

instance : BEq Method := ⟨fun a b => a.handle == b.handle⟩

def ofName? (s : String) : Option Method := (Builtin.ofName? s).map Builtin.method

end Method

end LeafPlan
