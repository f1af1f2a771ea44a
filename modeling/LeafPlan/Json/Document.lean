import LeafPlan.Json.Reader
import LeafPlan.Members

/-!
# Documents from texts

A text is a document when it holds one value and nothing but blanks around it.
-/

namespace LeafPlan

mutual

/-- The value of an outline, or the fault that stopped its reader. -/
def Outline.json : Outline → Except Fault Json
  | .fault f => .error f
  | .scalar v _ => .ok v.json
  | .list _ items => do return .array (← items.jsons)
  | .object _ members => do return .object (Members.ofList (← members.jsons))
  | .deepList start | .deepObject start => .error (.tooDeep start)

def Outline.Items.jsons : Outline.Items → Except Fault (List Json)
  | .close _ => .ok []
  | .fault f => .error f
  | .item v _ next => do
    let x ← v.json
    return x :: (← next.jsons)
  | .broken v => do return [← v.json]

def Outline.Fields.jsons : Outline.Fields → Except Fault (List (String × Json))
  | .close => .ok []
  | .fault f | .bare f => .error f
  | .field key v next => do
    let x ← v.json
    return (key, x) :: (← next.jsons)
  | .broken key v => do return [(key, ← v.json)]

end

def Json.read (t : Text) : Except Fault Json :=
  match Outline.read t with
  | (v, none) => v.json
  | (v, some rest) => do
    let d ← v.json
    match Text.skipBlanks rest with
    | [] => return d
    | rest => .error ⟨.trailingCharacters, Text.width rest - 1⟩

/-- The text of a message about the place where `left` bytes of `t` are unread. -/
def Text.located (t : Text) (left : Nat) (message : String) : String :=
  let p := Text.position t (Text.width t - left)
  s!"{message} at line {p.line} column {p.column}"

def Fault.message (t : Text) (f : Fault) : String := Text.located t f.left f.defect.message

end LeafPlan
