import LeafPlan.Filter.Arithmetic

/-!
# Filters

A filter takes a value and puts out any number of values. Names of variables and labels keep their `$`,
names of formats their `@`.
-/

namespace LeafPlan.Filter

inductive Comparison where
  | eq
  | ne
  | lt
  | le
  | gt
  | ge
deriving DecidableEq

def Comparison.holds : Comparison → Ordering → Bool
  | eq, o => o == .eq
  | ne, o => o != .eq
  | lt, o => o == .lt
  | le, o => o != .gt
  | gt, o => o == .gt
  | ge, o => o != .lt

inductive Connective where
  | alternative
  | or
  | and
  | compare (c : Comparison)
  | calculate (o : Operator)
  | assign
  | update
  | updateWith (o : Operator)
  | updateMissing
deriving DecidableEq

inductive Fold where
  | reduce
  | each
deriving DecidableEq

def Fold.name : Fold → String
  | reduce => "reduce"
  | each => "foreach"

mutual

inductive Term where
  | input
  /-- The input, the values that it holds, the values that those hold, and so on. -/
  | everything
  | nothing
  | number (text : String)
  | text (format : Option String) (pieces : List Piece)
  | list (body : Term)
  | emptyObject
  | member (key value : Term)
  | negate (body : Term)
  | pipe (first second : Term)
  | comma (first second : Term)
  | binary (c : Connective) (left right : Term)
  | bind (source : Term) (pattern : Pattern) (body : Term)
  | label (name : String) (body : Term)
  /-- Ends the outputs of a label. -/
  | leave (name : String)
  | fold (kind : Fold) (source : Term) (pattern : Pattern) (args : List Term)
  | attempt (body handler : Term)
  | choose (condition yes no : Term)
  | define (name : String) (parameters : List String) (body rest : Term)
  | call (name : String) (args : List Term)
  | variable (name : String)
  | parts (base : Term) (steps : List Step)

inductive Piece where
  | literal (s : String)
  | value (t : Term)

/-- A step into a value; an optional one puts out nothing where the value lacks the part. -/
inductive Step where
  | each (optional : Bool)
  | at (optional : Bool) (index : Term)
  | since (optional : Bool) (start : Term)
  | upTo (optional : Bool) (stop : Term)
  | between (optional : Bool) (start stop : Term)

inductive Pattern where
  | variable (name : String)
  | list (items : List Pattern)
  | object (fields : List (Term × Pattern))

end

instance : Inhabited Term := ⟨.input⟩

namespace Term

def literal (s : String) : Term := text none [.literal s]

def object : List Term → Term
  | [] => emptyObject
  | m :: rest => rest.foldl (binary (.calculate .add)) m

end Term

structure Definition where
  name : String
  parameters : List String
  body : Term

mutual

/-- The variables that a pattern binds, in their order. -/
def Pattern.names : Pattern → List String
  | .variable name => [name]
  | .list items => namesOfItems items
  | .object fields => namesOfFields fields

def Pattern.namesOfItems : List Pattern → List String
  | [] => []
  | p :: rest => p.names ++ namesOfItems rest

def Pattern.namesOfFields : List (Term × Pattern) → List String
  | [] => []
  | (_, p) :: rest => p.names ++ namesOfFields rest

end

end LeafPlan.Filter
