import Mathlib
import LeafPlan.CommandLine.Arguments
import LeafPlan.Proofs.Plan.DepthBound
import LeafPlan.Proofs.Schema.RoundTrip

/-!
# Loaded schemas and the bound on the depth

A schema that is loaded has no path of more than 127 names, so that no compilation exceeds a bound of 127. The
greatest bound that a command takes is smaller: a chain of 101 objects loads, and its compilation exceeds that bound.
-/

namespace LeafPlan

namespace Prepared

/-- No path into the schema has more than `n` names. -/
def PathsWithin (n : Nat) (x : Prepared) : Prop := ∀ q y, Path.find? q x = some y → q.length ≤ n

/-- No compilation exceeds the bound `n`, wherever the accessor leads and whatever was authored. -/
def NeverExceeds (n : Nat) (x : Prepared) : Prop :=
  ∀ accessor authored path limit, Compiler.compile ⟨accessor, n⟩ x authored ≠ .error (.depthExceeded path limit)

theorem pathsWithin_of_depth {n : Nat} {x : Prepared} (shallow : x.depth ≤ n) : x.PathsWithin n :=
  fun _ _ found => (length_le_depth found).trans shallow

/-- Where every path leads to an authored list, no method is missing. -/
theorem missing_nowhere (m : Method) (n : Nat) (s : Pending) (path : Path) :
    Compiler.fault? ⟨fun _ => [], n⟩ (some (.list m [])) s ≠ some (.missingMethod path) := by
  intro missing
  obtain ⟨items, rfl⟩ := Compiler.eq_list_of_missingMethod missing
  by_cases deep : n < path.length
  · rw [Compiler.fault?_of_deep deep] at missing
    cases missing
  · rw [Compiler.fault?_list deep] at missing
    cases missing

theorem neverExceeds_iff {n : Nat} {x : Prepared} (distinct : x.Distinct) : x.NeverExceeds n ↔ x.PathsWithin n := by
  constructor
  · intro never
    -- only the depth can stop this compilation
    have stopped := never (fun _ => []) (some (.list Builtin.json.method []))
    cases result : Compiler.compile ⟨fun _ => [], n⟩ x (some (.list Builtin.json.method [])) with
    | ok plan => exact ((Compiler.compile_succeeds_iff distinct).mp ⟨plan, result⟩).1
    | error e =>
      cases e with
      | depthExceeded path limit => exact (stopped path limit result).elim
      | missingMethod path =>
        obtain ⟨s, -, missing⟩ := List.exists_of_findSome?_eq_some ((Compiler.compile_eq_error_iff _ _).mp result)
        exact (missing_nowhere _ n s path missing).elim
  · intro within accessor authored path limit exceeded
    obtain ⟨-, deep, before, y, after, split, -⟩ := Compiler.split_of_depthExceeded exceeded
    have member : (path, y) ∈ x.preorder := by
      rw [split]
      exact List.mem_append_right _ List.mem_cons_self
    exact Nat.not_lt_of_le (within path y ((mem_preorder_iff distinct).mp member)) deep

end Prepared

theorem Prepared.depth_le_of_load {t : Text} {x : Prepared} (loaded : load t = .ok x) : x.depth ≤ 127 := by
  obtain ⟨s, w, rest, -, -, shallow, prepares⟩ := load_eq_ok_iff.mp loaded
  exact prepares.depth_le.trans shallow

theorem Authored.depth_le_of_load {t : Text} {o : Authored} (loaded : load t = .ok o) : o.prepare.depth ≤ 127 := by
  obtain ⟨s, w, rest, -, -, shallow, authors⟩ := load_eq_ok_iff.mp loaded
  exact authors.depth_le.trans shallow

theorem Authored.pathsWithin_prepare_iff {o : Authored} {n : Nat} :
    o.prepare.PathsWithin n ↔ ∀ q p, Path.find? q o = some p → q.length ≤ n := by
  constructor
  · intro within q p found
    exact within q p.prepare (by rw [find?_prepare, found, Option.map_some])
  · intro within q y found
    rw [find?_prepare] at found
    obtain ⟨p, found, -⟩ := Option.map_eq_some_iff.mp found
    exact within q p found

/-- The paths into a loaded schema have up to 127 names, so that no compilation exceeds a bound of 127. The greatest
bound that a command takes is never exceeded if and only if no path has more names. -/
theorem loaded_schemas_within_bound (t : Text) :
    (∀ x, Prepared.load t = .ok x →
      x.PathsWithin 127 ∧ x.NeverExceeds 127 ∧ (x.NeverExceeds greatestDepth ↔ x.PathsWithin greatestDepth)) ∧
    (∀ o, Authored.load t = .ok o →
      (∀ q p, Path.find? q o = some p → q.length ≤ 127) ∧ o.prepare.NeverExceeds 127 ∧
        (o.prepare.NeverExceeds greatestDepth ↔ ∀ q p, Path.find? q o = some p → q.length ≤ greatestDepth)) := by
  constructor
  · intro x loaded
    have distinct := Prepared.distinct_of_load loaded
    have short := Prepared.pathsWithin_of_depth (Prepared.depth_le_of_load loaded)
    exact ⟨short, (Prepared.neverExceeds_iff distinct).mpr short, Prepared.neverExceeds_iff distinct⟩
  · intro o loaded
    have distinct := Authored.distinct_prepare (Authored.distinct_of_load loaded)
    have short := Prepared.pathsWithin_of_depth (Authored.depth_le_of_load loaded)
    exact ⟨Authored.pathsWithin_prepare_iff.mp short, (Prepared.neverExceeds_iff distinct).mpr short,
      (Prepared.neverExceeds_iff distinct).trans Authored.pathsWithin_prepare_iff⟩

/-! ### A chain of 101 objects -/

theorem Prepared.distinct_chain (n : Nat) : (chain n).Distinct := by
  induction n with
  | zero => trivial
  | succ n ih => exact ⟨List.nodup_singleton _, ih, trivial⟩

/-- There is no list in a chain. -/
theorem Prepared.eachList_chain (P : Option Method → Prop) (n : Nat) : (chain n).EachList P := by
  induction n with
  | zero => trivial
  | succ n ih => exact ⟨ih, trivial⟩

theorem Prepared.find?_chain (n : Nat) : Path.find? (List.replicate n "k") (chain n) = some (.scalar .number) := by
  induction n with
  | zero => rfl
  | succ n ih =>
    rw [List.replicate_succ, chain, find?_object]
    exact ih

theorem Prepared.load_chain {n : Nat} (shallow : n ≤ 127) :
    load (Text.ofString (chain n).json.compact) = .ok (chain n) := by
  rw [← depth_chain n] at shallow
  exact load_of_spells (distinct_chain n) (eachList_chain _ n) shallow (Json.spells_compact (plain_written _))

/-- The chain as it is authored. -/
def Authored.nested : Nat → Authored
  | 0 => .scalar .number
  | n + 1 => .object [("k", nested n)]

theorem Authored.prepare_nested (n : Nat) : (nested n).prepare = .chain n := by
  induction n with
  | zero => rfl
  | succ n ih => rw [nested, prepare, prepareProps, prepareProps, ih, Prepared.chain]

theorem Authored.distinct_nested (n : Nat) : (nested n).Distinct := by
  induction n with
  | zero => trivial
  | succ n ih => exact ⟨List.nodup_singleton _, ih, trivial⟩

theorem Authored.load_nested {n : Nat} (shallow : n ≤ 127) :
    load (Text.ofString (nested n).json.compact) = .ok (nested n) := by
  have depth : (nested n).prepare.depth ≤ 127 := by rwa [prepare_nested, Prepared.depth_chain]
  have builtin : (nested n).prepare.EachList fun method => ∃ b : Builtin, method = some b.method := by
    rw [prepare_nested]
    exact Prepared.eachList_chain _ n
  exact load_of_spells (distinct_nested n) builtin depth (Json.spells_compact (plain_written _))

namespace Compiler

variable {c : Compiler}

theorem visitAll_of_deep {path : Path} (deep : c.maxDepth < path.length) (authored : Option Authored) (x : Prepared) :
    c.visitAll authored [(path, x)] = ⟨[], some (.depthExceeded path c.maxDepth)⟩ := by
  cases x <;> rw [visitAll, if_pos deep]

/-- The walk down a chain stops one name behind the bound. -/
theorem stopped_chain (authored : Option Authored) {n : Nat} (path : Path) (above : path.length ≤ c.maxDepth + 1)
    (below : c.maxDepth + 1 ≤ path.length + n) :
    (c.visitAll authored [(path, .chain n)]).stopped =
      some (.depthExceeded (path ++ List.replicate (c.maxDepth + 1 - path.length) "k") c.maxDepth) := by
  induction n generalizing path with
  | zero =>
    have last : c.maxDepth + 1 - path.length = 0 := Nat.sub_eq_zero_of_le below
    rw [visitAll_of_deep below, last, List.replicate_zero, List.append_nil]
  | succ n ih =>
    by_cases deep : c.maxDepth < path.length
    · have last : c.maxDepth + 1 - path.length = 0 := Nat.sub_eq_zero_of_le deep
      rw [visitAll_of_deep deep, last, List.replicate_zero, List.append_nil]
    · have length : (path ++ ["k"]).length = path.length + 1 := by simp
      have further := ih (path ++ ["k"]) (by omega) (by omega)
      have more : c.maxDepth + 1 - path.length = c.maxDepth + 1 - (path.length + 1) + 1 := by omega
      rw [length, List.append_assoc, List.singleton_append, ← List.replicate_succ, ← more] at further
      rw [Prepared.chain, visitAll, if_neg deep]
      exact further

theorem compile_chain (authored : Option Authored) {n : Nat} (deep : c.maxDepth < n) :
    c.compile (.chain n) authored = .error (.depthExceeded (List.replicate (c.maxDepth + 1) "k") c.maxDepth) := by
  have stopped := stopped_chain authored [] (Nat.zero_le _) (Nat.succ_le_of_lt (deep.trans_eq (Nat.zero_add n).symm))
  rw [compile, walk, Walk.plan, stopped]
  rfl

end Compiler

theorem loaded_schemas_within_bound_chain :
    Prepared.load (Text.ofString (Prepared.chain 101).json.compact) = .ok (Prepared.chain 101) ∧
      (Prepared.chain 101).PathsWithin 127 ∧ (Prepared.chain 101).NeverExceeds 127 := by
  have loaded := Prepared.load_chain (n := 101) (by decide)
  obtain ⟨within, never, -⟩ := (loaded_schemas_within_bound _).1 _ loaded
  exact ⟨loaded, within, never⟩

theorem Arguments.depth?_le {text : String} {n : Nat} (taken : depth? text = some n) : n ≤ greatestDepth := by
  have within := (Option.filter_eq_some_iff.mp taken).2
  rw [Bool.and_eq_true, decide_eq_true_iff, decide_eq_true_iff] at within
  exact within.2

/-- The chain loads, prepared as it is or authored, and exceeds every bound that a command takes: the greatest one is
taken and the next one is refused. -/
theorem chain_exceeds_greatestDepth :
    Prepared.load (Text.ofString (Prepared.chain 101).json.compact) = .ok (Prepared.chain 101) ∧
      ¬ (Prepared.chain 101).PathsWithin greatestDepth ∧
      Compiler.compile ⟨id, greatestDepth⟩ (Prepared.chain 101) none =
        .error (.depthExceeded (List.replicate 101 "k") greatestDepth) ∧
      Authored.load (Text.ofString (Authored.nested 101).json.compact) = .ok (Authored.nested 101) ∧
      (Authored.nested 101).prepare = Prepared.chain 101 ∧
      Arguments.depth? "100" = some greatestDepth ∧ Arguments.depth? "101" = none ∧
      ∀ text n, Arguments.depth? text = some n →
        Compiler.compile ⟨id, n⟩ (Prepared.chain 101) (some (Authored.nested 101)) =
          .error (.depthExceeded (List.replicate (n + 1) "k") n) := by
  refine ⟨Prepared.load_chain (by decide), fun within => ?_, ?_, Authored.load_nested (by decide),
    Authored.prepare_nested 101, by cbv, by cbv, fun text n taken => ?_⟩
  · have short := within _ _ (Prepared.find?_chain 101)
    rw [List.length_replicate] at short
    exact absurd short (by decide)
  · exact Compiler.compile_chain none (by decide)
  · have small : n < 101 := Nat.lt_succ_of_le (Arguments.depth?_le taken)
    exact Compiler.compile_chain _ small

end LeafPlan
