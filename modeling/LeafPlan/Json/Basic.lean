import LeafPlan.Decimal.Shortest

/-!
# Documents

A document is a JSON value. Its objects are lists of members in the order of declaration, and an
integer stays apart from a floating point number.
-/

namespace LeafPlan

inductive Number where
  | int (i : Int)
  | float (f : Float)
deriving DecidableEq

inductive Json where
  | null
  | bool (b : Bool)
  | number (n : Number)
  | string (s : String)
  | array (items : List Json)
  | object (members : List (String × Json))

namespace Number

/-- Floating point numbers are written with the fewest digits that read back, without an exponent
from `0.00001` up to `10 ^ 16`. -/
def layout : DecimalLayout := ⟨-5, 16, true⟩

def chars : Number → List Char
  | .int i => if i < 0 then '-' :: Nat.toDigits 10 i.natAbs else Nat.toDigits 10 i.natAbs
  | .float f => layout.writeFloat f

end Number

end LeafPlan
