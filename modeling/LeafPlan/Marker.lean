/-!
# Type markers

The closed set of scalar types. An authored schema names a type; a prepared schema holds its sentinel,
which no property type of the author's can be mistaken for.
-/

namespace LeafPlan

inductive Marker where
  | number
  | string
  | boolean
deriving DecidableEq

namespace Marker

def all : List Marker := [number, string, boolean]

def name : Marker → String
  | number => "number"
  | string => "string"
  | boolean => "boolean"

def sentinel : Marker → String
  | number => "number__sjs"
  | string => "string__sjs"
  | boolean => "boolean__sjs"

def ofSentinel? (s : String) : Option Marker := all.find? fun m => m.sentinel = s

/-- Takes a type's name as well as its sentinel. -/
def parse? (s : String) : Option Marker := all.find? fun m => m.sentinel = s || m.name = s

end Marker

end LeafPlan
