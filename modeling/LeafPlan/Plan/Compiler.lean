import LeafPlan.Plan.Basic
import LeafPlan.Schema.Authored

/-!
# From a schema to its plan

The compiler works through a list of pending nodes, each with its path. A leaf becomes a leaf of the
plan; an object's children take its place at the front of the list, in the order of declaration.
-/

namespace LeafPlan

inductive CompileError where
  /-- The node at `path` lies more than `limit` names deep. -/
  | depthExceeded (path : Path) (limit : Nat)
  /-- The list at `path` carries no method, and the authored schema has none for it. -/
  | missingMethod (path : Path)
deriving DecidableEq

def CompileError.message : CompileError → String
  | depthExceeded path limit => s!"schema nesting exceeds {limit} levels at `{path.display}`"
  | missingMethod path => s!"no array stringification method for `{path.display}`"

theorem CompileError.message_depthExceeded (path : Path) (limit : Nat) :
    (depthExceeded path limit).message = s!"schema nesting exceeds {limit} levels at `{path.display}`" := rfl

inductive Visit where
  /-- It goes on to an object's properties, so many of them. -/
  | descend (path : Path) (props : Nat)
  | leaf (path : Path) (leaf : Leaf)

def Visit.leaf? : Visit → Option Leaf
  | descend _ _ => none
  | leaf _ l => some l

/-- The nodes visited in order, and the error at the node behind them if there was one. -/
structure Walk where
  visits : List Visit
  stopped : Option CompileError

namespace Walk

def cons (v : Visit) (w : Walk) : Walk := { w with visits := v :: w.visits }

def leaves (w : Walk) : List Leaf := w.visits.filterMap Visit.leaf?

def plan (w : Walk) : Except CompileError Plan :=
  match w.stopped with
  | none => .ok ⟨w.leaves⟩
  | some e => .error e

end Walk

/-- The longest path that a node may have where nothing else is said. -/
def defaultDepth : Nat := 64

/-- How schemas are compiled: the path to a leaf's values, given its path in the schema, and the
longest path a node may have. -/
structure Compiler where
  accessor : Path → Path := id
  maxDepth : Nat := defaultDepth

namespace Prepared

mutual

/-- The nodes of a schema that a walk visits: all but the items of lists. -/
def nodes : Prepared → Nat
  | .scalar _ => 1
  | .list _ _ => 1
  | .object props => 1 + propNodes props

def propNodes : List (String × Prepared) → Nat
  | [] => 0
  | (_, x) :: ps => x.nodes + propNodes ps

end

end Prepared

abbrev Pending := Path × Prepared

namespace Pending

def nodes : List Pending → Nat
  | [] => 0
  | p :: rest => p.2.nodes + nodes rest

def ofProps (path : Path) (props : List (String × Prepared)) : List Pending :=
  props.map fun (k, x) => (path ++ [k], x)

theorem nodes_ofProps (path : Path) (props : List (String × Prepared)) :
    nodes (ofProps path props) = Prepared.propNodes props := by
  induction props with
  | nil => rfl
  | cons p ps ih => exact congrArg (p.2.nodes + ·) ih

theorem nodes_append (s t : List Pending) : nodes (s ++ t) = nodes s + nodes t := by
  induction s with
  | nil => simp [nodes]
  | cons p s ih => simp [nodes, ih, Nat.add_assoc]

theorem nodes_cons (p : Pending) (t : List Pending) : nodes (p :: t) = p.2.nodes + nodes t := rfl

end Pending

namespace Compiler

/-- The method of a list whose values are at `path`: the carried one, else the authored one. -/
def method? (authored : Option Authored) (path : Path) : Option Method → Option Method
  | some m => some m
  | none => (authored.bind path.find?).bind Authored.method?

def leaf (c : Compiler) (path : Path) (kind : LeafKind) : Leaf := ⟨path.getLast?, c.accessor path, kind⟩

/-- Visits the pending nodes, the first one first. -/
def visitAll (c : Compiler) (authored : Option Authored) : List Pending → Walk
  | [] => ⟨[], none⟩
  | (path, x) :: rest =>
    if c.maxDepth < path.length then ⟨[], some (.depthExceeded path c.maxDepth)⟩
    else
      match x with
      | .object props =>
        -- depth first: its properties go in front of what already waits
        (visitAll c authored (Pending.ofProps path props ++ rest)).cons (.descend path props.length)
      | .scalar m => (visitAll c authored rest).cons (.leaf path (c.leaf path (.scalar m)))
      | .list _ carried =>
        match method? authored (c.accessor path) carried with
        | some m => (visitAll c authored rest).cons (.leaf path (c.leaf path (.list m)))
        | none => ⟨[], some (.missingMethod path)⟩
termination_by stack => Pending.nodes stack
decreasing_by
  all_goals
    simp only [Pending.nodes_cons, Pending.nodes_append, Pending.nodes_ofProps, Prepared.nodes]
    omega

def walk (c : Compiler) (x : Prepared) (authored : Option Authored) : Walk :=
  c.visitAll authored [([], x)]

def compile (c : Compiler) (x : Prepared) (authored : Option Authored) : Except CompileError Plan :=
  (c.walk x authored).plan

end Compiler

end LeafPlan
