import Mathlib
import LeafPlan.Log
import LeafPlan.Proofs.Plan.DepthBound
import LeafPlan.Proofs.Text.Inspected

/-!
# The log of a compilation

A compilation tells of each node that it passes, in preorder, and then of its plan if it comes to one.
`log_tells_walk` shows this, what is left of the log at the level `debug`, and that a larger bound on the depth only
adds to what was told of nodes.
-/

namespace LeafPlan

namespace LogRecord

def isDescend : LogRecord → Bool
  | visit (.descend _ _) => true
  | _ => false

def isSummary : LogRecord → Bool
  | compiled _ => true
  | _ => false

def leaf? : LogRecord → Option Leaf
  | visit v => v.leaf?
  | _ => none

theorem filterMap_leaf?_visits (visits : List Visit) :
    (visits.map visit).filterMap leaf? = visits.filterMap Visit.leaf? := by
  rw [List.filterMap_map]
  rfl

theorem filter_not_summary_visits (visits : List Visit) :
    (visits.map visit).filter (fun r => !r.isSummary) = visits.map visit := by
  refine List.filter_eq_self.mpr fun r member => ?_
  obtain ⟨v, -, rfl⟩ := List.mem_map.mp member
  rfl

theorem text_descend (path : Path) (props : Nat) : (visit (.descend path props)).text =
    "TRACE sjs_plan::plan: descend path=" ++ path.display ++ " props=" ++ toString props := by
  apply String.toList_injective
  simp [text, level, source, message, fields, Level.name, FieldValue.text]

theorem text_scalar (path : Path) (name : Option String) (place : Path) (m : Marker) :
    (visit (.leaf path ⟨name, place, .scalar m⟩)).text =
      "DEBUG sjs_plan::plan: leaf path=" ++ path.display ++ " is_array=false" := by
  apply String.toList_injective
  simp [text, level, source, message, fields, Level.name, FieldValue.text, LeafKind.isList, LeafKind.method?]

theorem text_list (path : Path) (name : Option String) (place : Path) (m : Method) :
    (visit (.leaf path ⟨name, place, .list m⟩)).text =
      "DEBUG sjs_plan::plan: leaf path=" ++ path.display ++ " is_array=true method=" ++ Inspected.write m.name := by
  apply String.toList_injective
  simp [text, level, source, message, fields, Level.name, FieldValue.text, LeafKind.isList, LeafKind.method?]

theorem text_compiled (leaves : Nat) :
    (compiled leaves).text = "DEBUG sjs_plan::plan: compiled plan leaves=" ++ toString leaves := by
  apply String.toList_injective
  simp [text, level, source, message, fields, Level.name, FieldValue.text]

end LogRecord

/-! ### Levels -/

theorem logAt_trace (log : List LogRecord) : logAt .trace log = log :=
  List.filter_eq_self.mpr fun r _ => decide_eq_true (Nat.zero_le r.level.rank)

/-- All that is told at the level `trace` only is of objects. -/
theorem logAt_debug (log : List LogRecord) : logAt .debug log = log.filter fun r => !r.isDescend := by
  refine List.filter_congr fun r _ => ?_
  cases r with
  | visit v => cases v <;> rfl
  | _ => rfl

namespace Compiler

/-- What is told of a node that the compiler passes: how many properties an object has, and which leaf a scalar or
a list becomes. -/
inductive Tells (c : Compiler) (authored : Option Authored) : Pending → LogRecord → Prop
  | object (path : Path) (props : List (String × Prepared)) :
    Tells c authored (path, .object props) (.visit (.descend path props.length))
  | scalar (path : Path) (m : Marker) :
    Tells c authored (path, .scalar m) (.visit (.leaf path ⟨path.getLast?, c.accessor path, .scalar m⟩))
  | list (path : Path) (items : List Prepared) {carried : Option Method} {m : Method}
    (found : method? authored (c.accessor path) carried = some m) :
    Tells c authored (path, .list items carried) (.visit (.leaf path ⟨path.getLast?, c.accessor path, .list m⟩))

/-- The line that is logged of a node: it shows the path, the number of an object's properties, whether a leaf is a
list, and the name of a list's method between quotes. -/
inductive Shows (c : Compiler) (authored : Option Authored) : Pending → String → Prop
  | object (path : Path) (props : List (String × Prepared)) :
    Shows c authored (path, .object props)
      ("TRACE sjs_plan::plan: descend path=" ++ path.display ++ " props=" ++ toString props.length)
  | scalar (path : Path) (m : Marker) :
    Shows c authored (path, .scalar m) ("DEBUG sjs_plan::plan: leaf path=" ++ path.display ++ " is_array=false")
  | list (path : Path) (items : List Prepared) {carried : Option Method} {m : Method}
    (found : method? authored (c.accessor path) carried = some m) :
    Shows c authored (path, .list items carried)
      ("DEBUG sjs_plan::plan: leaf path=" ++ path.display ++ " is_array=true method=" ++ Inspected.write m.name)

variable {c : Compiler} {authored : Option Authored}

theorem Tells.shows {s : Pending} {r : LogRecord} (tells : c.Tells authored s r) : c.Shows authored s r.text := by
  cases tells with
  | object path props =>
    rw [LogRecord.text_descend]
    exact .object path props
  | scalar path m =>
    rw [LogRecord.text_scalar]
    exact .scalar path m
  | list path items found =>
    rw [LogRecord.text_list]
    exact .list path items found

/-- Only its path can break a line. -/
theorem Shows.feed_mem_display {s : Pending} {line : String} (shows : c.Shows authored s line)
    (feed : '\n' ∈ line.toList) : '\n' ∈ s.1.display.toList := by
  cases shows with
  | object path props =>
    have number : '\n' ∉ Nat.toDigits 10 props.length := fun digit =>
      absurd (Nat.isDigit_of_mem_toDigits (by decide) (by decide) digit) (by decide)
    simpa [number] using feed
  | scalar path m => simpa using feed
  | @list path items carried m found =>
    have name := Inspected.feed_not_mem_write m.name
    simpa [name] using feed

theorem shows_of_tells {nodes : List Pending} {told : List LogRecord}
    (each : List.Forall₂ (c.Tells authored) nodes told) :
    List.Forall₂ (c.Shows authored) nodes (told.map LogRecord.text) :=
  List.forall₂_map_right_iff.mpr (each.imp fun _ _ tells => tells.shows)

theorem visit?_of_sound {s : Pending} (sound : c.fault? authored s = none) :
    ∃ v, c.visit? authored s = some v ∧ c.Tells authored s (.visit v) := by
  obtain ⟨path, x⟩ := s
  cases x with
  | object props => exact ⟨_, rfl, .object path props⟩
  | scalar m => exact ⟨_, rfl, .scalar path m⟩
  | list items carried =>
    have present := (fault?_eq_none_iff.mp sound).2 items carried rfl
    obtain ⟨m, found⟩ := Option.isSome_iff_exists.mp present
    refine ⟨.leaf path (c.leaf path (.list m)), ?_, .list path items found⟩
    simp [visit?, leaf?, found]

theorem told_of_sound {nodes : List Pending} (sound : ∀ s ∈ nodes, c.fault? authored s = none) :
    List.Forall₂ (c.Tells authored) nodes ((nodes.filterMap (c.visit? authored)).map .visit) := by
  induction nodes with
  | nil => exact .nil
  | cons s rest ih =>
    obtain ⟨here, sound⟩ := List.forall_mem_cons.mp sound
    obtain ⟨v, visited, tells⟩ := visit?_of_sound here
    rw [List.filterMap_cons_some visited, List.map_cons]
    exact .cons tells (ih sound)

theorem walk_eq_pass (x : Prepared) : c.walk x authored = c.pass authored x.preorder := by
  rw [walk, visitAll_eq_pass, Pending.preorder_root]

theorem log_of_ok {x : Prepared} {plan : Plan} (compiled : c.compile x authored = .ok plan) :
    (c.walk x authored).log = (x.preorder.filterMap (c.visit? authored)).map .visit ++ [.compiled plan.size] := by
  obtain ⟨sound, leaves⟩ := (compile_eq_ok_iff c authored).mp compiled
  have clean : x.preorder.findSome? (c.fault? authored) = none := List.findSome?_eq_none_iff.mpr sound
  have whole : x.preorder.takeWhile (fun s => (c.fault? authored s).isNone) = x.preorder :=
    List.takeWhile_eq_self_iff.mpr fun s member => Option.isNone_iff_eq_none.mpr (sound s member)
  have size : plan.size = (c.walk x authored).leaves.length := by
    rw [Plan.size, leaves, walk_eq_pass, pass, whole, Walk.leaves, List.filterMap_filterMap]
    simp only [visit?_leaf?]
  rw [size, walk_eq_pass, pass, whole, clean]
  rfl

theorem log_of_error {x : Prepared} {e : CompileError} (failed : c.compile x authored = .error e) :
    ∃ passed s later, x.preorder = passed ++ s :: later ∧ (∀ t ∈ passed, c.fault? authored t = none) ∧
      c.fault? authored s = some e ∧
      (c.walk x authored).log = (passed.filterMap (c.visit? authored)).map .visit := by
  have first := (compile_eq_error_iff c authored).mp failed
  obtain ⟨passed, s, later, split, fault, sound⟩ := List.findSome?_eq_some_iff.mp first
  have front : x.preorder.takeWhile (fun t => (c.fault? authored t).isNone) = passed := by
    rw [split, List.takeWhile_append_of_pos fun t member => Option.isNone_iff_eq_none.mpr (sound t member),
      List.takeWhile_cons_of_neg (by simp [fault]), List.append_nil]
  refine ⟨passed, s, later, split, sound, fault, ?_⟩
  rw [walk_eq_pass, pass, front, first]
  exact List.append_nil _

/-! ### Two bounds -/

theorem filter_not_summary_log (x : Prepared) :
    (c.walk x authored).log.filter (fun r => !r.isSummary) = (c.walk x authored).visits.map .visit := by
  rw [Walk.log, List.filter_append, LogRecord.filter_not_summary_visits]
  cases (c.walk x authored).stopped <;> exact List.append_nil _

variable {accessor : Path → Path} {m n : Nat}

theorem visit?_of_bounds : visit? ⟨accessor, m⟩ authored = visit? ⟨accessor, n⟩ authored := by
  funext ⟨path, x⟩
  cases x <;> rfl

/-- A node without a fault has none under a larger bound, so the walk gets at least as far. -/
theorem visits_prefix_of_le (le : m ≤ n) (x : Prepared) :
    (Compiler.walk ⟨accessor, m⟩ x authored).visits <+: (Compiler.walk ⟨accessor, n⟩ x authored).visits := by
  have sound (s : Pending) (clear : fault? ⟨accessor, m⟩ authored s = none) :
      fault? ⟨accessor, n⟩ authored s = none := by
    rwa [fault?_of_le le (fault?_eq_none_iff.mp clear).1]
  have shorter : x.preorder.takeWhile (fun s => (fault? ⟨accessor, m⟩ authored s).isNone) <+:
      x.preorder.takeWhile (fun s => (fault? ⟨accessor, n⟩ authored s).isNone) := by
    have both : x.preorder.takeWhile (fun s => (fault? ⟨accessor, m⟩ authored s).isNone) =
        (x.preorder.takeWhile fun s => (fault? ⟨accessor, n⟩ authored s).isNone).takeWhile
          fun s => (fault? ⟨accessor, m⟩ authored s).isNone := by
      rw [List.takeWhile_takeWhile]
      congr 1
      funext s
      cases clear : fault? ⟨accessor, m⟩ authored s with
      | some e => simp
      | none => simp [sound s clear]
    rw [both]
    exact List.takeWhile_prefix _
  rw [walk_eq_pass, walk_eq_pass, pass, pass, visit?_of_bounds (n := n)]
  exact shorter.filterMap _

theorem log_prefix_of_le (le : m ≤ n) (x : Prepared) :
    (Compiler.walk ⟨accessor, m⟩ x authored).log.filter (fun r => !r.isSummary) <+:
      (Compiler.walk ⟨accessor, n⟩ x authored).log := by
  rw [filter_not_summary_log]
  exact ((visits_prefix_of_le le x).map _).trans (List.prefix_append _ _)

/-- A compilation tells of the nodes that it passes, in preorder: of an object how many properties it has, of a
scalar or a list which leaf it becomes, and the line of each shows this behind the node's path. If it passes all nodes
it tells of its plan behind that, else it tells of the nodes in front of the one that it fails at and of nothing more.
The level `debug` leaves out what is told of objects. At each level, all that is told under one bound but the summary
is the start of what is told under a larger one. -/
theorem log_tells_walk (accessor : Path → Path) (authored : Option Authored) (x : Prepared) (m : Nat) :
    let c (bound : Nat) : Compiler := ⟨accessor, bound⟩
    let log (bound : Nat) : List LogRecord := ((c bound).walk x authored).log
    (∃ passed rest told, x.preorder = passed ++ rest ∧ (∀ s ∈ passed, (c m).fault? authored s = none) ∧
      List.Forall₂ ((c m).Tells authored) passed told ∧
      List.Forall₂ ((c m).Shows authored) passed (told.map LogRecord.text) ∧
      ((rest = [] ∧ ∃ plan, (c m).compile x authored = .ok plan ∧ told.filterMap LogRecord.leaf? = plan.leaves ∧
          log m = told ++ [.compiled plan.size] ∧
          (LogRecord.compiled plan.size).text =
            "DEBUG sjs_plan::plan: compiled plan leaves=" ++ toString plan.size) ∨
        ∃ s later e, rest = s :: later ∧ (c m).fault? authored s = some e ∧
          (c m).compile x authored = .error e ∧ log m = told)) ∧
    logAt .trace (log m) = log m ∧
    logAt .debug (log m) = (log m).filter (fun r => !r.isDescend) ∧
    ∀ n, m ≤ n → ∀ level, (logAt level (log m)).filter (fun r => !r.isSummary) <+: logAt level (log n) := by
  intro c log
  refine ⟨?_, logAt_trace _, logAt_debug _, fun n le level => ?_⟩
  · cases outcome : (c m).compile x authored with
    | ok plan =>
      obtain ⟨sound, leaves⟩ := (compile_eq_ok_iff (c m) authored).mp outcome
      have told := told_of_sound sound
      refine ⟨x.preorder, [], _, (List.append_nil _).symm, sound, told, shows_of_tells told,
        Or.inl ⟨rfl, plan, rfl, ?_, log_of_ok outcome, LogRecord.text_compiled plan.size⟩⟩
      rw [LogRecord.filterMap_leaf?_visits, List.filterMap_filterMap, leaves]
      simp only [visit?_leaf?]
    | error e =>
      obtain ⟨passed, s, later, split, sound, fault, told⟩ := log_of_error outcome
      have tells := told_of_sound sound
      exact ⟨passed, s :: later, _, split, sound, tells, shows_of_tells tells,
        Or.inr ⟨s, later, e, rfl, fault, rfl, told⟩⟩
  · have swapped : (logAt level (log m)).filter (fun r => !r.isSummary) =
        logAt level ((log m).filter fun r => !r.isSummary) := by
      simp only [logAt, List.filter_filter, Bool.and_comm]
    rw [swapped]
    exact (log_prefix_of_le le x).filter _

/-- With the bound at one name, nothing is told of the buyer's name, which is too deep, nor of anything behind it. With
two names there is a line for each node and one for the plan. -/
theorem log_tells_walk_invoice :
    let log (bound : Nat) : List LogRecord := (Compiler.walk ⟨id, bound⟩ Prepared.invoice none).log
    let number : LogRecord := .visit (.leaf ["id"] ⟨some "id", ["id"], .scalar .number⟩)
    let told : List LogRecord := [.visit (.descend [] 3), number, .visit (.descend ["buyer"] 3)]
    Compiler.compile ⟨id, 1⟩ Prepared.invoice none = .error (.depthExceeded ["buyer", "name"] 1) ∧
      log 1 = told ∧ logAt .debug (log 1) = [number] ∧ 1 ≤ 2 ∧ told <+: log 2 ∧
      (∃ more, log 2 = more ++ [.compiled 4]) ∧
      (log 2).map LogRecord.text =
        ["TRACE sjs_plan::plan: descend path=<root> props=3", "DEBUG sjs_plan::plan: leaf path=id is_array=false",
          "TRACE sjs_plan::plan: descend path=buyer props=3",
          "DEBUG sjs_plan::plan: leaf path=buyer.name is_array=false",
          "TRACE sjs_plan::plan: descend path=buyer.notes props=0",
          "DEBUG sjs_plan::plan: leaf path=buyer.tags is_array=true method=\"join\"",
          "DEBUG sjs_plan::plan: leaf path=paid is_array=false", "DEBUG sjs_plan::plan: compiled plan leaves=4"] := by
  intro log number told
  have exceeded : Compiler.compile ⟨id, 1⟩ Prepared.invoice none = .error (.depthExceeded ["buyer", "name"] 1) := by
    rw [compile_eq]
    rfl
  have short : log 1 = told := by
    simp only [log, walk_eq_pass]
    rfl
  obtain ⟨-, -, debug, longer⟩ := log_tells_walk id none Prepared.invoice 1
  have front := longer 2 (by decide) .trace
  rw [logAt_trace, logAt_trace] at front
  refine ⟨exceeded, short, ?_, by decide, ?_, ?_, ?_⟩
  · exact debug.trans (congrArg (List.filter fun r => !r.isDescend) short)
  · have same : (log 1).filter (fun r => !r.isSummary) = told := by
      rw [short]
      rfl
    exact same ▸ front
  · obtain ⟨⟨passed, rest, all, -, -, -, -, done | stopped⟩, -⟩ := log_tells_walk id none Prepared.invoice 2
    · obtain ⟨-, plan, compiled, -, summed, -⟩ := done
      obtain rfl := Except.ok.inj (compiled.symm.trans compile_invoice)
      exact ⟨all, summed⟩
    · obtain ⟨s, later, e, -, -, failed, -⟩ := stopped
      cases compile_invoice.symm.trans failed
  · simp only [log, walk_eq_pass]
    cbv

end Compiler

end LeafPlan
