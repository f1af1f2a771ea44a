import LeafPlan.Proofs.Itemwise
import LeafPlan.Proofs.Path.Lens
import LeafPlan.Schema.Authored

/-!
# Schemas without repeated properties

The properties of an object stand in a list, but a schema declares none of them twice. So a name leads to
one node only.
-/

namespace LeafPlan.Prepared

theorem induction {P : Prepared → Prop} (scalar : ∀ m, P (.scalar m))
    (list : ∀ items method, (∀ x ∈ items, P x) → P (.list items method))
    (object : ∀ props, (∀ q ∈ props, P q.2) → P (.object props)) (x : Prepared) : P x := by
  refine @Prepared.rec P (fun items => ∀ x ∈ items, P x) (fun props => ∀ q ∈ props, P q.2) (fun q => P q.2)
    scalar list object ?_ ?_ ?_ ?_ ?_ x
  · exact fun x member => nomatch member
  · exact fun x items here below => List.forall_mem_cons.mpr ⟨here, below⟩
  · exact fun q member => nomatch member
  · exact fun q props here below => List.forall_mem_cons.mpr ⟨here, below⟩
  · exact fun k x here => here

mutual

/-- No object declares a property twice. -/
def Distinct : Prepared → Prop
  | .scalar _ => True
  | .list items _ => DistinctItems items
  | .object props => (Members.keys props).Nodup ∧ DistinctProps props

def DistinctItems : List Prepared → Prop
  | [] => True
  | x :: xs => x.Distinct ∧ DistinctItems xs

def DistinctProps : List (String × Prepared) → Prop
  | [] => True
  | (_, x) :: ps => x.Distinct ∧ DistinctProps ps

end

mutual

def decideDistinct : (x : Prepared) → Decidable x.Distinct
  | .scalar _ => .isTrue trivial
  | .list items _ => decideItems items
  | .object props => @instDecidableAnd _ _ inferInstance (decideProps props)

def decideItems : (items : List Prepared) → Decidable (DistinctItems items)
  | [] => .isTrue trivial
  | x :: xs => @instDecidableAnd _ _ (decideDistinct x) (decideItems xs)

def decideProps : (props : List (String × Prepared)) → Decidable (DistinctProps props)
  | [] => .isTrue trivial
  | (_, x) :: ps => @instDecidableAnd _ _ (decideDistinct x) (decideProps ps)

end

instance : DecidablePred Distinct := decideDistinct

theorem distinctItems_iff {items : List Prepared} : DistinctItems items ↔ ∀ x ∈ items, x.Distinct :=
  Itemwise.iff ⟨trivial, fun _ _ => Iff.rfl⟩

theorem distinctProps_iff {props : List (String × Prepared)} : DistinctProps props ↔ ∀ q ∈ props, q.2.Distinct :=
  Itemwise.iff ⟨trivial, fun _ _ => Iff.rfl⟩

theorem distinct_object {props : List (String × Prepared)} :
    (Prepared.object props).Distinct ↔ (Members.keys props).Nodup ∧ ∀ q ∈ props, q.2.Distinct := by
  rw [Distinct, distinctProps_iff]

theorem find?_object (k : String) (p : Path) (props : List (String × Prepared)) :
    Path.find? (k :: p) (Prepared.object props) = (Members.find? k props).bind (Path.find? p) :=
  Path.find?_cons k p _

theorem find?_cons_of_isLeaf {x : Prepared} (leaf : x.isLeaf = true) (k : String) (p : Path) :
    Path.find? (k :: p) x = none := by
  cases x with
  | object props => cases leaf
  | _ => rfl

end LeafPlan.Prepared

namespace LeafPlan.Authored

theorem induction {P : Authored → Prop} (scalar : ∀ m, P (.scalar m))
    (list : ∀ method items, (∀ x ∈ items, P x) → P (.list method items))
    (object : ∀ props, (∀ q ∈ props, P q.2) → P (.object props)) (x : Authored) : P x := by
  refine @Authored.rec P (fun items => ∀ x ∈ items, P x) (fun props => ∀ q ∈ props, P q.2) (fun q => P q.2)
    scalar list object ?_ ?_ ?_ ?_ ?_ x
  · exact fun x member => nomatch member
  · exact fun x items here below => List.forall_mem_cons.mpr ⟨here, below⟩
  · exact fun q member => nomatch member
  · exact fun q props here below => List.forall_mem_cons.mpr ⟨here, below⟩
  · exact fun k x here => here

mutual

/-- No object declares a property twice. -/
def Distinct : Authored → Prop
  | .scalar _ => True
  | .list _ items => DistinctItems items
  | .object props => (Members.keys props).Nodup ∧ DistinctProps props

def DistinctItems : List Authored → Prop
  | [] => True
  | x :: xs => x.Distinct ∧ DistinctItems xs

def DistinctProps : List (String × Authored) → Prop
  | [] => True
  | (_, x) :: ps => x.Distinct ∧ DistinctProps ps

end

mutual

def decideDistinct : (x : Authored) → Decidable x.Distinct
  | .scalar _ => .isTrue trivial
  | .list _ items => decideItems items
  | .object props => @instDecidableAnd _ _ inferInstance (decideProps props)

def decideItems : (items : List Authored) → Decidable (DistinctItems items)
  | [] => .isTrue trivial
  | x :: xs => @instDecidableAnd _ _ (decideDistinct x) (decideItems xs)

def decideProps : (props : List (String × Authored)) → Decidable (DistinctProps props)
  | [] => .isTrue trivial
  | (_, x) :: ps => @instDecidableAnd _ _ (decideDistinct x) (decideProps ps)

end

instance : DecidablePred Distinct := decideDistinct

theorem distinctItems_iff {items : List Authored} : DistinctItems items ↔ ∀ x ∈ items, x.Distinct :=
  Itemwise.iff ⟨trivial, fun _ _ => Iff.rfl⟩

theorem distinctProps_iff {props : List (String × Authored)} : DistinctProps props ↔ ∀ q ∈ props, q.2.Distinct :=
  Itemwise.iff ⟨trivial, fun _ _ => Iff.rfl⟩

theorem distinct_object {props : List (String × Authored)} :
    (Authored.object props).Distinct ↔ (Members.keys props).Nodup ∧ ∀ q ∈ props, q.2.Distinct := by
  rw [Distinct, distinctProps_iff]

theorem find?_object (k : String) (p : Path) (props : List (String × Authored)) :
    Path.find? (k :: p) (Authored.object props) = (Members.find? k props).bind (Path.find? p) :=
  Path.find?_cons k p _

end LeafPlan.Authored
