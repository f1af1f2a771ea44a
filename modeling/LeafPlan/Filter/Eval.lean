import LeafPlan.Filter.Function
import LeafPlan.Filter.Prelude
import LeafPlan.Filter.Scope

/-!
# Evaluation

A filter is evaluated for an input in an environment of names. `Eval.run` gives its outputs and
`Eval.update` the input with the parts replaced that the filter leads to. Both take the depth to which
they may go; beyond it they raise `tooDeep`.
-/

namespace LeafPlan.Filter

/-- A value, and the way to it from the input where that is asked for: the last index first. -/
structure Item where
  value : Value
  path : Option (List Value)

/-- What a name stands for. A definition may use itself and what stands behind it in the environment;
an argument uses the environment of its call. -/
inductive Binding where
  | variable (name : String) (value : Value)
  | label (name : String) (id : Nat)
  | definition (d : Definition)
  | argument (name : String) (t : Term) (environment : List Binding)

abbrev Environment := List Binding

namespace Environment

def valueOf? (name : String) : Environment → Option Value
  | [] => none
  | .variable n v :: rest => if n = name then some v else valueOf? name rest
  | _ :: rest => valueOf? name rest

def label? (name : String) : Environment → Option Nat
  | [] => none
  | .label n id :: rest => if n = name then some id else label? name rest
  | _ :: rest => label? name rest

inductive Callee where
  | argument (t : Term) (environment : Environment)
  | definition (d : Definition) (environment : Environment)

def callee? (name : String) (arity : Nat) : Environment → Option Callee
  | [] => none
  | .definition d :: rest =>
    if d.name = name && d.parameters.length = arity then some (.definition d (.definition d :: rest))
    else callee? name arity rest
  | .argument n t environment :: rest =>
    if n = name && arity = 0 then some (.argument t environment) else callee? name arity rest
  | _ :: rest => callee? name arity rest

def prelude : Environment := (Prelude.definitions.map Binding.definition).reverse

end Environment

/-- Outputs of a filter, some of which are raised. -/
abbrev Results (α : Type) := Outputs (Outcome α)

namespace Results

variable {α β : Type}

def one (a : α) : Results α := Outputs.one (.ok a)

def raise (e : Raised) : Results α := Outputs.one (.error e)

/-- The outputs of `f` for every output; what is raised stays. -/
def andThen (x : Results α) (f : α → Results β) : Results β :=
  x.flatMap fun
    | .ok a => f a
    | .error e => raise e

/-- The same for a function with one output. -/
def mapOutcome (x : Results α) (f : α → Outcome β) : Results β := x.map fun a => a.bind f

def all (x : Results α) : Outcome (List α) := x.toList.mapM id

/-- `f` along the outputs, from `a` on; every output of `f` is followed on its own. -/
def reduce (f : α → β → Results α) : Results β → α → Results α
  | .done, a => one a
  | .item (.error e) _, _ => raise e
  | .item (.ok b) next, a => (f a b).andThen fun a => reduce f (next ()) a

def eachStep {γ : Type} (f : α → β → Results α) (g : α → β → Results γ) : Results β → α → Results γ
  | .done, _ => .done
  | .item (.error e) _, _ => raise e
  | .item (.ok b) next, a =>
    (f a b).andThen fun a => (g a b).append fun _ => eachStep f g (next ()) a

/-- The last output, unless something was raised in front of it. -/
def last : Results α → Option (Outcome α) → Option (Outcome α)
  | .done, found => found
  | .item (.error e) _, _ => some (.error e)
  | .item (.ok a) next, _ => last (next ()) (some (.ok a))

end Results

namespace Eval

/-- The input of a filter whose outputs are asked for without their ways. -/
def plain (v : Value) : Item := ⟨v, none⟩

/-- A value that no part of the input is. -/
def made (input : Item) (v : Value) : Outcome Item :=
  match input.path with
  | none => .ok (plain v)
  | some _ => .error (.noPath v)

def number (text : String) : Value :=
  match Decimal.int? text.toList with
  | some i => if Value.fits i then .int i else .numeral text
  | none => .numeral text

/-- The parts of `input` along a selection. -/
def follow : List (Bool × Part) → Item → Results Item
  | [], input => .one input
  | (optional, p) :: rest, input =>
    Results.andThen (p.read optional input.value) fun (i, v) =>
      follow rest ⟨v, input.path.map (i :: ·)⟩

/-- The value with the part along a selection replaced. -/
def replaceAlong (f : Replacement) : List (Bool × Part) → Replacement
  | [] => f
  | (optional, p) :: rest => fun v => Outputs.one (p.replace optional (replaceAlong f rest) v)

/-- The value with the parts along several selections replaced, one after the other. -/
def replaceAll (f : Replacement) (selections : Results (List (Bool × Part))) (v : Value) : Results Value :=
  Results.reduce (fun v s => replaceAlong f s v) selections v

/-- No range has more values than this. -/
def rangeLimit : Nat := 18446744073709551616

def range (start stop step : Value) : Results Value :=
  let next (v : Value) : Value := (v.add step).toOption.getD .null
  if Value.order step (.int 0) == .gt then
    (Outputs.iterate next (fun v => Value.order v stop == .lt) rangeLimit start).map .ok
  else if Value.order step (.int 0) == .lt then
    (Outputs.iterate next (fun v => Value.order v stop == .gt) rangeLimit start).map .ok
  else if Value.same start stop then .done
  else (Outputs.iterate id (fun _ => true) rangeLimit start).map .ok

def count (v : Value) : Outcome Nat := do
  match v with
  | .int i => return i.toNat
  | v => return (← Function.asFloat v).ceil.toUInt64.toNat

def choices : List (Results Value) → Results (List Value)
  | [] => .one []
  | x :: rest => Results.andThen x fun v => (choices rest).mapOutcome fun vs => .ok (v :: vs)

def operate (c : Connective) (x y : Value) : Outcome Value :=
  match c with
  | .compare c => .ok (.bool (c.holds (Value.order x y)))
  | .calculate o => Value.calculate o x y
  | _ => .error .tooDeep

/-- The outcome for every output on the left with every output on the right. -/
def combine (left : Results Value) (right : Unit → Results Value) (f : Value → Value → Outcome Value) :
    Results Value :=
  left.flatMap fun x => (right ()).map fun y => x.bind fun x => y.bind fun y => f x y

def value (x : Results Item) : Results Value := x.map fun i => i.map Item.value

def isTrueItem : Outcome Item → Bool
  | .ok i => i.value.isTrue
  | .error _ => true

mutual

def run : Nat → Environment → Term → Item → Results Item
  | 0, _, _, _ => .raise .tooDeep
  | depth + 1, env, t, input =>
    let give (v : Value) : Results Item := Outputs.one (made input v)
    match t with
    | .input => .one input
    -- the prelude's `recurse`, also where the filter defines one of its own
    | .everything => run depth Environment.prelude (.call "recurse" []) input
    | .nothing => .done
    | .number text => give (number text)
    | .text format pieces =>
      (textOf depth env format pieces input.value).mapOutcome fun s => made input (.string s)
    | .list body =>
      match (value (run depth env body (plain input.value))).all with
      | .ok items => give (.array items)
      | .error e => .raise e
    | .emptyObject => give (.object [])
    | .member key body =>
      (combine (value (run depth env key (plain input.value)))
        (fun _ => value (run depth env body (plain input.value))) fun k v =>
          match k with
          | .string k => .ok (.object [(k, v)])
          | k => .error (.notA "string" k)).mapOutcome (made input)
    | .negate body =>
      (value (run depth env body (plain input.value))).mapOutcome fun v => v.negate.bind (made input)
    | .pipe x y => (run depth env x input).andThen fun i => run depth env y i
    | .comma x y => (run depth env x input).append fun _ => run depth env y input
    | .binary c x y => operator depth env c x y input
    | .bind source p body =>
      (value (run depth env source (plain input.value))).andThen fun v =>
        (destructure depth env p input.value v).andThen fun env => run depth env body input
    -- no label further in has the same depth, so it serves as an identity
    | .label name body =>
      ((run depth (.label name depth :: env) body input).takeWhile fun
        | .error (.broken id) => id != depth
        | _ => true)
    | .leave name =>
      match Environment.label? name env with
      | some id => .raise (.broken id)
      | none => .raise .tooDeep
    | .fold kind source p args =>
      match args with
      | [start, step] | [start, step, _] =>
        let bound := (value (run depth env source (plain input.value))).andThen fun v =>
          destructure depth env p input.value v
        let next (i : Item) (env : Environment) : Results Item := run depth env step i
        let shown (i : Item) (env : Environment) : Results Item :=
          match args with
          | [_, _, project] => run depth env project i
          | _ => .one i
        (run depth env start input).andThen fun i =>
          match kind with
          | .reduce => bound.reduce next i
          | .each => bound.eachStep next shown i
      | _ => .raise .tooDeep
    | .attempt body handler =>
      (run depth env body input).flatMap fun
        | .error (.error payload) => run depth env handler (plain payload)
        | x => Outputs.one x
    | .choose condition yes no =>
      (value (run depth env condition (plain input.value))).andThen fun v =>
        run depth env (if v.isTrue then yes else no) input
    | .define name parameters body rest =>
      run depth (.definition ⟨name, parameters, body⟩ :: env) rest input
    | .call name args => call depth env name args input
    | .variable name =>
      match Environment.valueOf? name env with
      | some v => give v
      | none => .raise .tooDeep
    | .parts base steps =>
      let selections := selectionsOf depth env steps input.value
      (run depth env base input).andThen fun i => selections.andThen fun s => follow s i

/-- The texts of a text with filters in it. -/
def textOf : Nat → Environment → Option String → List Piece → Value → Results String
  | 0, _, _, _, _ => .raise .tooDeep
  | _ + 1, _, _, [], _ => .one ""
  | depth + 1, env, format, .literal s :: rest, v =>
    (textOf depth env format rest v).mapOutcome fun t => .ok (s ++ t)
  | depth + 1, env, format, .value t :: rest, v =>
    (value (run depth env t (plain v))).andThen fun x =>
      let written : Results Value :=
        match format with
        | none => .one (.string x.plainText)
        | some f => value (call depth env f [] (plain x))
      written.andThen fun w =>
        (textOf depth env format rest v).mapOutcome fun t =>
          match w with
          | .string s => .ok (s ++ t)
          | w => .error (.cannotCalculate w "+" (.string t))

/-- The outputs of two filters with an operator between them. -/
def operator : Nat → Environment → Connective → Term → Term → Item → Results Item
  | 0, _, _, _, _, _ => .raise .tooDeep
  | depth + 1, env, c, x, y, input =>
    let left (_ : Unit) : Results Value := value (run depth env x (plain input.value))
    let right (_ : Unit) : Results Value := value (run depth env y (plain input.value))
    match c with
    | .alternative =>
      -- an error counts as an output, so the other side is not tried behind one
      match (run depth env x input).filter isTrueItem with
      | .done => run depth env y input
      | found => found
    | .and =>
      ((left ()).andThen fun v =>
        if v.isTrue then (right ()).mapOutcome fun w => .ok (.bool w.isTrue) else .one (.bool false)).mapOutcome
        (made input)
    | .or =>
      ((left ()).andThen fun v =>
        if v.isTrue then .one (.bool true) else (right ()).mapOutcome fun w => .ok (.bool w.isTrue)).mapOutcome
        (made input)
    | .assign =>
      ((right ()).andThen fun w => update depth env x (fun _ => Results.one w) input.value).mapOutcome (made input)
    | .update =>
      (update depth env x (fun v => value (run depth env y (plain v))) input.value).mapOutcome (made input)
    | .updateWith o =>
      ((right ()).andThen fun w =>
        update depth env x (fun v => Outputs.one (Value.calculate o v w)) input.value).mapOutcome (made input)
    | .updateMissing =>
      ((right ()).andThen fun w =>
        update depth env x (fun v => Results.one (if v.isTrue then v else w)) input.value).mapOutcome (made input)
    | c => (combine (left ()) right (operate c)).mapOutcome (made input)

/-- The environments in which a pattern is bound to a value. Its keys are evaluated for `input`. -/
def destructure : Nat → Environment → Pattern → Value → Value → Results Environment
  | 0, _, _, _, _ => .raise .tooDeep
  | depth + 1, env, p, input, v =>
    match p with
    | .variable name => .one (.variable name v :: env)
    | .list items => destructureItems depth env items 0 input v
    | .object fields => destructureFields depth env fields input v

def destructureItems : Nat → Environment → List Pattern → Nat → Value → Value → Results Environment
  | 0, _, _, _, _, _ => .raise .tooDeep
  | _ + 1, env, [], _, _, _ => .one env
  | depth + 1, env, p :: rest, n, input, v =>
    match v.readAt (.int n) with
    | .error e => .raise e
    | .ok x =>
      (destructure depth env p input x).andThen fun env =>
        destructureItems depth env rest (n + 1) input v

def destructureFields : Nat → Environment → List (Term × Pattern) → Value → Value → Results Environment
  | 0, _, _, _, _ => .raise .tooDeep
  | _ + 1, env, [], _, _ => .one env
  | depth + 1, env, (key, p) :: rest, input, v =>
    (value (run depth env key (plain input))).andThen fun k =>
      match v.readAt k with
      | .error e => .raise e
      | .ok x =>
        (destructure depth env p input x).andThen fun env =>
          destructureFields depth env rest input v

/-- The selections that steps make. Their indices are evaluated for `input`. -/
def selectionsOf : Nat → Environment → List Step → Value → Results (List (Bool × Part))
  | 0, _, _, _ => .raise .tooDeep
  | _ + 1, _, [], _ => .one []
  | depth + 1, env, s :: rest, input =>
    let evaluated (t : Term) : Results Value := value (run depth env t (plain input))
    let part : Results (Bool × Part) :=
      match s with
      | .each optional => .one (optional, .each)
      | .at optional t => (evaluated t).mapOutcome fun i => .ok (optional, .at i)
      | .since optional t => (evaluated t).mapOutcome fun i => .ok (optional, .stretch (some i) none)
      | .upTo optional t => (evaluated t).mapOutcome fun i => .ok (optional, .stretch none (some i))
      | .between optional x y =>
        (evaluated x).andThen fun i => (evaluated y).mapOutcome fun j => .ok (optional, .stretch (some i) (some j))
    part.andThen fun p => (selectionsOf depth env rest input).mapOutcome fun ps => .ok (p :: ps)

/-- The environments for the body of a definition. A parameter that is a variable takes each output of
its argument. -/
def bindArguments : Nat → Environment → List String → List Term → Value → Environment → Results Environment
  | 0, _, _, _, _, _ => .raise .tooDeep
  | depth + 1, env, p :: ps, a :: rest, input, inner =>
    if Scope.isVariable p then
      (value (run depth env a (plain input))).andThen fun v =>
        bindArguments depth env ps rest input (.variable p v :: inner)
    else bindArguments depth env ps rest input (.argument p a env :: inner)
  | _, _, _, _, _, inner => .one inner

/-- The outputs of a filter that is called by its name. -/
def call : Nat → Environment → String → List Term → Item → Results Item
  | 0, _, _, _, _ => .raise .tooDeep
  | depth + 1, env, name, args, input =>
    match Environment.callee? name args.length env with
    | some (.argument t inner) => run depth inner t input
    | some (.definition d inner) =>
      (bindArguments depth env d.parameters args input.value inner).andThen fun inner =>
        run depth inner d.body input
    | none => primitive depth env name args input

def primitive : Nat → Environment → String → List Term → Item → Results Item
  | 0, _, _, _, _ => .raise .tooDeep
  | depth + 1, env, name, args, input =>
    let evaluated (t : Term) : Results Value := value (run depth env t (plain input.value))
    match name, args with
    | "empty", [] => .done
    | "error", [] => .raise (.error input.value)
    | "error", [t] => (evaluated t).andThen fun v => .raise (.error v)
    | "path", [t] =>
      (run depth env t ⟨input.value, some []⟩).mapOutcome fun i =>
        made input (.array (i.path.getD []).reverse)
    | "first", [t] => (run depth env t input).take 1
    | "last", [t] =>
      match (run depth env t input).last none with
      | some x => Outputs.one x
      | none => .done
    | "limit", [n, t] =>
      (evaluated n).andThen fun n =>
        match count n with
        | .ok n => (run depth env t input).take n
        | .error e => .raise e
    | "skip", [n, t] =>
      (evaluated n).andThen fun n =>
        match count n with
        | .ok n => (run depth env t input).drop n
        | .error e => .raise e
    | "range", [x, y, z] =>
      ((evaluated x).andThen fun start => (evaluated y).andThen fun stop => (evaluated z).andThen fun step =>
        range start stop step).mapOutcome (made input)
    | name, args =>
      match args, Function.byKey.lookup name with
      | [t], some f => Outputs.one ((keyed depth env t input.value).bind fun pairs => made input (f pairs))
      | _, _ =>
        match Function.find? name args.length with
        | none => .raise .tooDeep
        | some f =>
          (choices (args.map evaluated)).mapOutcome fun vs => (f input.value vs).bind (made input)

/-- The items of a list behind their keys, which are the outputs of a filter. -/
def keyed : Nat → Environment → Term → Value → Outcome (List (Value × Value))
  | 0, _, _, _ => .error .tooDeep
  | depth + 1, env, t, v => do
    (← Function.asArray v).mapM fun x => do
      return (.array (← (value (run depth env t (plain x))).all), x)

/-- The value with the parts replaced that a filter leads to. -/
def update : Nat → Environment → Term → Replacement → Value → Results Value
  | 0, _, _, _, _ => .raise .tooDeep
  | depth + 1, env, t, f, v =>
    let evaluated (t : Term) : Results Value := value (run depth env t (plain v))
    match t with
    | .input => f v
    | .everything => update depth Environment.prelude (.call "recurse" []) f v
    | .nothing => .one v
    | .pipe x y => update depth env x (fun w => update depth env y f w) v
    | .comma x y => (update depth env x f v).andThen fun w => update depth env y f w
    | .binary .alternative x y =>
      if (run depth env x (plain v)).any isTrueItem then update depth env x f v else update depth env y f v
    | .bind source p body =>
      Results.reduce (fun w env => update depth env body f w)
        ((evaluated source).andThen fun x => destructure depth env p v x) v
    | .choose condition yes no =>
      Results.reduce (fun w c => update depth env (if c.isTrue then yes else no) f w) (evaluated condition) v
    | .attempt body handler =>
      (update depth env body f v).flatMap fun
        | .error (.error _) => update depth env handler f v
        | x => Outputs.one x
    | .define name parameters body rest =>
      update depth (.definition ⟨name, parameters, body⟩ :: env) rest f v
    | .call name args =>
      match Environment.callee? name args.length env with
      | some (.argument t inner) => update depth inner t f v
      | some (.definition d inner) =>
        Results.reduce (fun w inner => update depth inner d.body f w)
          (bindArguments depth env d.parameters args v inner) v
      | none =>
        match name, args with
        | "empty", [] => .one v
        | "error", [] => .raise (.error v)
        | _, _ => updateAlong depth env t f v
    | .parts base steps =>
      let selections := selectionsOf depth env steps v
      update depth env base (replaceAll f selections) v
    | t => updateAlong depth env t f v

/-- The same by the ways to the parts. -/
def updateAlong : Nat → Environment → Term → Replacement → Value → Results Value
  | 0, _, _, _, _ => .raise .tooDeep
  | depth + 1, env, t, f, v =>
    let ways := (run depth env t ⟨v, some []⟩).mapOutcome fun i =>
      .ok ((i.path.getD []).reverse.map fun k => (false, Part.at k))
    replaceAll f ways v

end

/-- The depth to which filters are evaluated. -/
def depth : Nat := 1000000

end Eval

end LeafPlan.Filter
