import LeafPlan.Proofs.Json.Printed
import LeafPlan.Proofs.Json.Unambiguous
import LeafPlan.Proofs.Schema.Depth

/-!
# Schemas written and loaded again

`schema_texts_round_trip` shows that a schema comes back from every text that spells its document, unless it is
nested too deep to be read.
-/

namespace LeafPlan

open Grammar

namespace Prepared

mutual

/-- `P` holds for what every list carries, inside of lists too. -/
def EachList (P : Option Method → Prop) : Prepared → Prop
  | .scalar _ => True
  | .list items method => P method ∧ EachListItems P items
  | .object props => EachListProps P props

def EachListItems (P : Option Method → Prop) : List Prepared → Prop
  | [] => True
  | x :: xs => x.EachList P ∧ EachListItems P xs

def EachListProps (P : Option Method → Prop) : List (String × Prepared) → Prop
  | [] => True
  | (_, x) :: ps => x.EachList P ∧ EachListProps P ps

end

theorem eachListItems_iff {P : Option Method → Prop} {items : List Prepared} :
    EachListItems P items ↔ ∀ x ∈ items, x.EachList P :=
  Itemwise.iff ⟨trivial, fun _ _ => Iff.rfl⟩

theorem eachListProps_iff {P : Option Method → Prop} {props : List (String × Prepared)} :
    EachListProps P props ↔ ∀ q ∈ props, q.2.EachList P :=
  Itemwise.iff ⟨trivial, fun _ _ => Iff.rfl⟩

mutual

/-- The document that stands for a schema: the methods of its lists are left out. -/
def json : Prepared → Json
  | .scalar m => .string m.sentinel
  | .list items _ => .array (jsonItems items)
  | .object props => .object (jsonProps props)

def jsonItems : List Prepared → List Json
  | [] => []
  | x :: xs => x.json :: jsonItems xs

def jsonProps : List (String × Prepared) → List (String × Json)
  | [] => []
  | (k, x) :: ps => (k, x.json) :: jsonProps ps

end

/-- What a text that spells the schema shows. -/
abbrev written (x : Prepared) : Written := x.json.written

theorem writtenItems_eq (items : List Prepared) : Json.writtenItems (jsonItems items) = items.map written := by
  have mapped : Mapped written fun items => Json.writtenItems (jsonItems items) := ⟨rfl, fun _ _ => rfl⟩
  exact mapped.eq items

theorem writtenProps_eq (props : List (String × Prepared)) :
    Json.writtenMembers (jsonProps props) = props.map fun q => (q.1, q.2.written) := by
  have mapped : Mapped _ fun props => Json.writtenMembers (jsonProps props) := ⟨rfl, fun _ _ => rfl⟩
  exact mapped.eq props

theorem written_list (items : List Prepared) (method : Option Method) :
    written (.list items method) = .array (items.map written) :=
  congrArg Written.array (writtenItems_eq items)

theorem written_object (props : List (String × Prepared)) :
    written (.object props) = .object (props.map fun q => (q.1, q.2.written)) :=
  congrArg Written.object (writtenProps_eq props)

mutual

theorem depth_written : (x : Prepared) → x.written.depth = x.depth
  | .scalar _ => rfl
  | .list items _ => congrArg (· + 1) (depthItems_written items)
  | .object props => congrArg (· + 1) (depthProps_written props)

theorem depthItems_written : (items : List Prepared) →
    Written.depthItems (Json.writtenItems (jsonItems items)) = depthItems items
  | [] => rfl
  | x :: xs => congrArg₂ max (depth_written x) (depthItems_written xs)

theorem depthProps_written : (props : List (String × Prepared)) →
    Written.depthMembers (Json.writtenMembers (jsonProps props)) = depthProps props
  | [] => rfl
  | (_, x) :: ps => congrArg₂ max (depth_written x) (depthProps_written ps)

end

theorem plain_written (x : Prepared) : x.written.Plain := by
  induction x using Prepared.induction with
  | scalar m => trivial
  | list items method ih => rwa [written_list, Written.plain_array_iff, List.forall_mem_map]
  | object props ih => rwa [written_object, Written.plain_object_iff, List.forall_mem_map]

theorem prepares_written {x : Prepared} (distinct : x.Distinct) (bare : x.EachList (· = none)) :
    x.written.Prepares x := by
  induction x using Prepared.induction with
  | scalar m => exact .scalar m
  | list items method ih =>
    obtain ⟨rfl, bare⟩ := bare
    rw [eachListItems_iff] at bare
    rw [Distinct, distinctItems_iff] at distinct
    rw [written_list]
    refine .list (List.forall₂_map_left_iff.mpr (List.forall₂_same.mpr fun x member => ?_))
    exact ih x member (distinct x member) (bare x member)
  | object props ih =>
    obtain ⟨unique, distinct⟩ := distinct_object.mp distinct
    rw [EachList, eachListProps_iff] at bare
    rw [written_object]
    refine .object (List.forall₂_map_left_iff.mpr (List.forall₂_same.mpr fun q member => ?_))
      (Members.settles_self unique)
    exact .intro q.1 (ih q member (distinct q member) (bare q member))

theorem load_of_spells {x : Prepared} (distinct : x.Distinct) (bare : x.EachList (· = none)) (shallow : x.depth ≤ 127)
    {t : Text} (spells : x.json.Spells t) : load t = .ok x := by
  rw [← depth_written] at shallow
  exact (load_iff_of_front (Fills.front spells) (plain_written x)).mpr ⟨shallow, prepares_written distinct bare⟩

theorem refused_of_spells {x : Prepared} (deep : 127 < x.depth) {t : Text} (spells : x.json.Spells t) :
    ∃ e, load t = .error e := by
  cases loaded : load t with
  | error e => exact ⟨e, rfl⟩
  | ok y =>
    obtain ⟨shallow, -⟩ := (load_iff_of_front (Fills.front spells) (plain_written x)).mp loaded
    rw [depth_written] at shallow
    exact (Nat.not_lt_of_le shallow deep).elim

end Prepared

namespace Authored

mutual

/-- The document that stands for a schema: a list starts with the name of its method. -/
def json : Authored → Json
  | .scalar m => .string m.name
  | .list method items => .array (.string method.name :: jsonItems items)
  | .object props => .object (jsonProps props)

def jsonItems : List Authored → List Json
  | [] => []
  | o :: os => o.json :: jsonItems os

def jsonProps : List (String × Authored) → List (String × Json)
  | [] => []
  | (k, o) :: ps => (k, o.json) :: jsonProps ps

end

/-- What a text that spells the schema shows. -/
abbrev written (o : Authored) : Written := o.json.written

theorem writtenItems_eq (items : List Authored) : Json.writtenItems (jsonItems items) = items.map written := by
  have mapped : Mapped written fun items => Json.writtenItems (jsonItems items) := ⟨rfl, fun _ _ => rfl⟩
  exact mapped.eq items

theorem writtenProps_eq (props : List (String × Authored)) :
    Json.writtenMembers (jsonProps props) = props.map fun q => (q.1, q.2.written) := by
  have mapped : Mapped _ fun props => Json.writtenMembers (jsonProps props) := ⟨rfl, fun _ _ => rfl⟩
  exact mapped.eq props

theorem written_list (method : Method) (items : List Authored) :
    written (.list method items) = .array (.string method.name :: items.map written) :=
  congrArg (fun ws => Written.array (.string method.name :: ws)) (writtenItems_eq items)

theorem written_object (props : List (String × Authored)) :
    written (.object props) = .object (props.map fun q => (q.1, q.2.written)) :=
  congrArg Written.object (writtenProps_eq props)

mutual

theorem depth_written : (o : Authored) → o.written.depth = o.prepare.depth
  | .scalar _ => rfl
  | .list _ items => congrArg (· + 1) ((Nat.zero_max _).trans (depthItems_written items))
  | .object props => congrArg (· + 1) (depthProps_written props)

theorem depthItems_written : (items : List Authored) →
    Written.depthItems (Json.writtenItems (jsonItems items)) = Prepared.depthItems (prepareItems items)
  | [] => rfl
  | o :: os => congrArg₂ max (depth_written o) (depthItems_written os)

theorem depthProps_written : (props : List (String × Authored)) →
    Written.depthMembers (Json.writtenMembers (jsonProps props)) = Prepared.depthProps (prepareProps props)
  | [] => rfl
  | (_, o) :: ps => congrArg₂ max (depth_written o) (depthProps_written ps)

end

theorem plain_written (o : Authored) : o.written.Plain := by
  induction o using Authored.induction with
  | scalar m => trivial
  | list method items ih =>
    rw [written_list, Written.plain_array_iff, List.forall_mem_cons, List.forall_mem_map]
    exact ⟨trivial, ih⟩
  | object props ih => rwa [written_object, Written.plain_object_iff, List.forall_mem_map]

theorem authors_written {o : Authored} (distinct : o.Distinct)
    (builtin : o.prepare.EachList fun method => ∃ b : Builtin, method = some b.method) : o.written.Authors o := by
  induction o using Authored.induction with
  | scalar m => exact .name m
  | list method items ih =>
    obtain ⟨⟨b, carried⟩, builtin⟩ := builtin
    obtain rfl := Option.some.inj carried
    rw [Prepared.eachListItems_iff, prepareItems_eq, List.forall_mem_map] at builtin
    rw [Distinct, distinctItems_iff] at distinct
    rw [written_list]
    refine .list b (List.forall₂_map_left_iff.mpr (List.forall₂_same.mpr fun o member => ?_))
    exact ih o member (distinct o member) (builtin o member)
  | object props ih =>
    obtain ⟨unique, distinct⟩ := distinct_object.mp distinct
    rw [prepare, Prepared.EachList, Prepared.eachListProps_iff, prepareProps_eq, List.forall_mem_map] at builtin
    rw [written_object]
    refine .object (List.forall₂_map_left_iff.mpr (List.forall₂_same.mpr fun q member => ?_))
      (Members.settles_self unique)
    exact .intro q.1 (ih q member (distinct q member) (builtin q member))

theorem load_of_spells {o : Authored} (distinct : o.Distinct)
    (builtin : o.prepare.EachList fun method => ∃ b : Builtin, method = some b.method)
    (shallow : o.prepare.depth ≤ 127) {t : Text} (spells : o.json.Spells t) : load t = .ok o := by
  rw [← depth_written] at shallow
  exact (load_iff_of_front (Fills.front spells) (plain_written o)).mpr ⟨shallow, authors_written distinct builtin⟩

theorem refused_of_spells {o : Authored} (deep : 127 < o.prepare.depth) {t : Text} (spells : o.json.Spells t) :
    ∃ e, load t = .error e := by
  cases loaded : load t with
  | error e => exact ⟨e, rfl⟩
  | ok p =>
    obtain ⟨shallow, -⟩ := (load_iff_of_front (Fills.front spells) (plain_written o)).mp loaded
    rw [depth_written] at shallow
    exact (Nat.not_lt_of_le shallow deep).elim

end Authored

/-- Every text that spells a schema loads as that schema, if no container of the text lies more than 127 deep, and
does not load otherwise. The compact form of the schema's document is such a text. Prepared schemas come back if
they carry no method, and authored schemas if their methods are builtin. -/
theorem schema_texts_round_trip :
    (∀ x : Prepared, x.Distinct → x.EachList (· = none) → x.depth ≤ 127 →
      ∀ t, x.json.Spells t → Prepared.load t = .ok x) ∧
    (∀ o : Authored, o.Distinct → (o.prepare.EachList fun method => ∃ b : Builtin, method = some b.method) →
      o.prepare.depth ≤ 127 → ∀ t, o.json.Spells t → Authored.load t = .ok o) ∧
    (∀ x : Prepared, 127 < x.depth → ∀ t, x.json.Spells t → ∃ e, Prepared.load t = .error e) ∧
    (∀ o : Authored, 127 < o.prepare.depth → ∀ t, o.json.Spells t → ∃ e, Authored.load t = .error e) ∧
    (∀ x : Prepared, x.json.Spells (Text.ofString x.json.compact)) ∧
    ∀ o : Authored, o.json.Spells (Text.ofString o.json.compact) := by
  refine ⟨fun x distinct bare shallow t => Prepared.load_of_spells distinct bare shallow,
    fun o distinct builtin shallow t => Authored.load_of_spells distinct builtin shallow,
    fun x deep t => Prepared.refused_of_spells deep, fun o deep t => Authored.refused_of_spells deep,
    fun x => Json.spells_compact (Prepared.plain_written x), fun o => Json.spells_compact (Authored.plain_written o)⟩

/-- A key with a quote in it, and lists inside of a list. -/
def Prepared.quoted : Prepared :=
  .object [("a\"b", .list [.object [], .list [] none] none), ("é", .scalar .boolean)]

def Authored.quoted : Authored :=
  .object [("a\"b", .list Builtin.json.method [.object [], .list Builtin.join.method []]), ("é", .scalar .boolean)]

theorem schema_texts_round_trip_quoted :
    (Prepared.quoted.Distinct ∧ Prepared.quoted.EachList (· = none) ∧ Prepared.quoted.depth ≤ 127 ∧
      Prepared.load (Text.ofString "\x7b\"a\\\"b\":[\x7b\x7d,[]],\"é\":\"boolean__sjs\"\x7d") = .ok Prepared.quoted) ∧
    (Authored.quoted.Distinct ∧
      (Authored.quoted.prepare.EachList fun method => ∃ b : Builtin, method = some b.method) ∧
      Authored.quoted.prepare.depth ≤ 127 ∧
      Authored.load (Text.ofString "\x7b\"a\\\"b\":[\"json\",\x7b\x7d,[\"join\"]],\"é\":\"boolean\"\x7d") =
        .ok Authored.quoted) ∧
    (127 < (Prepared.chain 128).depth ∧
      ∃ e, Prepared.load (Text.ofString (Prepared.chain 128).json.compact) = .error e) ∧
    127 < (Authored.chain 128).prepare.depth ∧
      ∃ e, Authored.load (Text.ofString (Authored.chain 128).json.compact) = .error e := by
  obtain ⟨loads, loadsAuthored, refused, refusedAuthored, spells, spellsAuthored⟩ := schema_texts_round_trip
  have distinct : Prepared.quoted.Distinct := by decide
  have distinctAuthored : Authored.quoted.Distinct := by decide
  have bare : Prepared.quoted.EachList (· = none) := ⟨⟨rfl, trivial, ⟨rfl, trivial⟩, trivial⟩, trivial, trivial⟩
  have builtin : Authored.quoted.prepare.EachList fun method => ∃ b : Builtin, method = some b.method :=
    ⟨⟨⟨.json, rfl⟩, trivial, ⟨⟨.join, rfl⟩, trivial⟩, trivial⟩, trivial, trivial⟩
  have deep : 127 < (Prepared.chain 128).depth := by
    rw [Prepared.depth_chain]
    decide
  have deepAuthored : 127 < (Authored.chain 128).prepare.depth := by
    rw [Authored.depth_chain]
    decide
  exact ⟨⟨distinct, bare, by decide, loads _ distinct bare (by decide) _ (spells _)⟩,
    ⟨distinctAuthored, builtin, by decide, loadsAuthored _ distinctAuthored builtin (by decide) _ (spellsAuthored _)⟩,
    ⟨deep, refused _ deep _ (spells _)⟩, deepAuthored, refusedAuthored _ deepAuthored _ (spellsAuthored _)⟩

end LeafPlan
