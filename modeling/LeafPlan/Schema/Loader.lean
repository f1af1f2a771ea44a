import LeafPlan.Schema.Authored
import LeafPlan.Schema.Refusal

/-!
# Schemas from texts

Both dialects write a scalar as a string, a list as a list and an object as an object. A prepared
schema takes sentinels only; an authored schema takes type names too, and its lists start with the name
of a builtin method. What follows the schema in the text is not looked at.
-/

namespace LeafPlan

mutual

def Outline.prepared : Outline → Except Refusal Prepared
  | .fault f => .error (.ofFault f)
  | .scalar v left =>
    match v with
    | .string s =>
      match Marker.ofSentinel? s with
      | some m => .ok (.scalar m)
      | none => .error ⟨[], .unknownMarker s, left⟩
    | v => .error ⟨[], .invalid (.scalar v) .preparedNode, left⟩
  | .list _ items => do return .list (← items.prepared 0) none
  | .object _ members => do return .object (Members.ofList (← members.prepared))
  | .deepList start | .deepObject start => .error (.ofFault (.tooDeep start))

/-- The items from item `i` on. -/
def Outline.Items.prepared (i : Nat) : Outline.Items → Except Refusal (List Prepared)
  | .close _ => .ok []
  | .fault f => .error (.ofFault f)
  | .item v _ next => do
    let x ← v.prepared.mapError (Refusal.under (.index i))
    return x :: (← next.prepared (i + 1))
  | .broken v => do return [← v.prepared.mapError (Refusal.under (.index i))]

def Outline.Fields.prepared : Outline.Fields → Except Refusal (List (String × Prepared))
  | .close => .ok []
  | .fault f => .error ((Refusal.ofFault f).under .unknown)
  | .bare f => .error (.ofFault f)
  | .field key v next => do
    let x ← v.prepared.mapError (Refusal.under (.name key))
    return (key, x) :: (← next.prepared)
  | .broken key v => do return [(key, ← v.prepared.mapError (Refusal.under (.name key)))]

end

def Outline.methodName : Outline → Except Refusal String
  | .fault f => .error (.ofFault f)
  | .scalar (.string s) _ => .ok s
  | .scalar v left => .error ⟨[], .invalid (.scalar v) .methodName, left⟩
  | .list start _ | .deepList start => .error ⟨[], .invalid .list .methodName, start⟩
  | .object start _ | .deepObject start => .error ⟨[], .invalid .object .methodName, start⟩

/-- The method that a list's first item names. -/
def Outline.Items.method : Outline.Items → Except Refusal Method
  | .close left => .error ⟨[], .methodMissing, left⟩
  | .fault f => .error (.ofFault f)
  | .item v settled _ => do
    let name ← v.methodName.mapError (Refusal.under (.index 0))
    match Method.ofName? name with
    | some m => return m
    -- the reader finds the name unknown when it has looked for the end of the list
    | none => .error ⟨[], .unknownMethod name, settled⟩
  | .broken v => do
    let name ← v.methodName.mapError (Refusal.under (.index 0))
    .error ⟨[], .unknownMethod name, 0⟩

mutual

def Outline.authored : Outline → Except Refusal Authored
  | .fault f => .error (.ofFault f)
  | .scalar v left =>
    match v with
    | .string s =>
      match Marker.parse? s with
      | some m => .ok (.scalar m)
      | none => .error ⟨[], .unknownType s, left⟩
    | v => .error ⟨[], .invalid (.scalar v) .authoredNode, left⟩
  | .list _ items => do
    let m ← items.method
    return .list m (← items.authoredTail)
  | .object _ members => do return .object (Members.ofList (← members.authored))
  | .deepList start | .deepObject start => .error (.ofFault (.tooDeep start))

def Outline.Items.authoredTail : Outline.Items → Except Refusal (List Authored)
  | .item _ _ next => next.authored 1
  | _ => .ok []

/-- The items from item `i` on. -/
def Outline.Items.authored (i : Nat) : Outline.Items → Except Refusal (List Authored)
  | .close _ => .ok []
  | .fault f => .error (.ofFault f)
  | .item v _ next => do
    let x ← v.authored.mapError (Refusal.under (.index i))
    return x :: (← next.authored (i + 1))
  | .broken v => do return [← v.authored.mapError (Refusal.under (.index i))]

def Outline.Fields.authored : Outline.Fields → Except Refusal (List (String × Authored))
  | .close => .ok []
  | .fault f => .error ((Refusal.ofFault f).under .unknown)
  | .bare f => .error (.ofFault f)
  | .field key v next => do
    let x ← v.authored.mapError (Refusal.under (.name key))
    return (key, x) :: (← next.authored)
  | .broken key v => do return [(key, ← v.authored.mapError (Refusal.under (.name key)))]

end

def Prepared.load (t : Text) : Except LoadError Prepared :=
  (Outline.read t).1.prepared.mapError (Refusal.toLoadError t)

def Authored.load (t : Text) : Except LoadError Authored :=
  (Outline.read t).1.authored.mapError (Refusal.toLoadError t)

end LeafPlan
