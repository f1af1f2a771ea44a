import LeafPlan.Filter.Syntax

/-!
# Scopes

Every filter, variable and label that a filter names has to be in scope. `Scope.undefinedIn` lists those
that are not, in the order in which they are looked up.
-/

namespace LeafPlan.Filter

inductive Undefined where
  | filter (name : String) (arity : Nat)
  | variable (name : String)
  | label (name : String)
  | library (name : String)
deriving DecidableEq

namespace Undefined

def name : Undefined → String
  | .filter n _ | .variable n | .label n | .library n => n

def kind : Undefined → String
  | .filter _ arity => s!"Filter({arity})"
  | .variable _ => "Var"
  | .label _ => "Label"
  | .library _ => "Mod"

end Undefined

structure Scope where
  filters : List (String × Nat)
  values : List String
  labels : List String

namespace Scope

def withVariables (s : Scope) (names : List String) : Scope :=
  { s with values := names ++ s.values }

def withFilter (s : Scope) (name : String) (arity : Nat) : Scope :=
  { s with filters := (name, arity) :: s.filters }

def withLabel (s : Scope) (name : String) : Scope := { s with labels := name :: s.labels }

def isVariable (parameter : String) : Bool := parameter.toList.head? = some '$'

/-- A parameter is a variable or a filter without parameters. -/
def withParameters (s : Scope) (ps : List String) : Scope :=
  ps.foldl (fun s p => if isVariable p then s.withVariables [p] else s.withFilter p 0) s

def library? (name : String) : Option String :=
  match name.splitOn "::" with
  | l :: _ :: _ => some l
  | _ => none

def lookUpFilter (s : Scope) (name : String) (arity : Nat) : List Undefined :=
  match library? name with
  | some l => [.library l]
  | none => if s.filters.contains (name, arity) then [] else [.filter name arity]

def lookUpVariable (s : Scope) (name : String) : List Undefined :=
  match library? name with
  | some l => [.library (l.drop 1).toString]
  | none => if s.values.contains name then [] else [.variable name]

def lookUpLabel (s : Scope) (name : String) : List Undefined :=
  if s.labels.contains name then [] else [.label name]

mutual

def undefinedIn (s : Scope) : Term → List Undefined
  | .input | .everything | .nothing | .number _ | .emptyObject => []
  | .text format pieces => format.elim [] (lookUpFilter s · 0) ++ undefinedInPieces s pieces
  | .list t | .negate t => undefinedIn s t
  | .member x y | .pipe x y | .comma x y | .binary _ x y | .attempt x y => undefinedIn s x ++ undefinedIn s y
  | .bind source p body =>
    undefinedIn s source ++ undefinedInPattern s p ++ undefinedIn (s.withVariables p.names) body
  | .label name body => undefinedIn (s.withLabel name) body
  | .leave name => lookUpLabel s name
  -- A fold takes a start and an update, and `foreach` may take a third filter.
  | .fold kind source p (start :: update :: more) =>
    let inner := s.withVariables p.names
    undefinedIn s source ++ undefinedInPattern s p ++ undefinedIn s start ++ undefinedIn inner update ++
      match kind, more with
      | _, [] => []
      | .each, [project] => undefinedIn inner project
      | _, _ => [.filter kind.name (more.length + 2)]
  | .fold kind _ _ args => [.filter kind.name args.length]
  | .choose condition yes no => undefinedIn s no ++ undefinedIn s condition ++ undefinedIn s yes
  | .define name parameters body rest =>
    let inner := s.withFilter name parameters.length
    undefinedIn (inner.withParameters parameters) body ++ undefinedIn inner rest
  | .call name args => undefinedInTerms s args ++ lookUpFilter s name args.length
  | .variable name => lookUpVariable s name
  | .parts base steps => undefinedIn s base ++ undefinedInSteps s steps

def undefinedInTerms (s : Scope) : List Term → List Undefined
  | [] => []
  | t :: rest => undefinedIn s t ++ undefinedInTerms s rest

def undefinedInPieces (s : Scope) : List Piece → List Undefined
  | [] => []
  | .literal _ :: rest => undefinedInPieces s rest
  | .value t :: rest => undefinedIn s t ++ undefinedInPieces s rest

def undefinedInSteps (s : Scope) : List Step → List Undefined
  | [] => []
  | .each _ :: rest => undefinedInSteps s rest
  | .at _ t :: rest | .since _ t :: rest | .upTo _ t :: rest => undefinedIn s t ++ undefinedInSteps s rest
  | .between _ x y :: rest => undefinedIn s x ++ undefinedIn s y ++ undefinedInSteps s rest

def undefinedInPattern (s : Scope) : Pattern → List Undefined
  | .variable _ => []
  | .list items => undefinedInItems s items
  | .object fields => undefinedInFields s fields

def undefinedInItems (s : Scope) : List Pattern → List Undefined
  | [] => []
  | p :: rest => undefinedInPattern s p ++ undefinedInItems s rest

def undefinedInFields (s : Scope) : List (Term × Pattern) → List Undefined
  | [] => []
  | (key, p) :: rest => undefinedIn s key ++ undefinedInPattern s p ++ undefinedInFields s rest

end

end Scope

end LeafPlan.Filter
