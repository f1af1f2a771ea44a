/-!
# Outputs

What a filter puts out is a list that is computed as far as it is asked for. Every operation is
described by the list of all its values.
-/

namespace LeafPlan.Filter

inductive Outputs (α : Type) where
  | done
  | item (first : α) (next : Unit → Outputs α)

namespace Outputs

variable {α β : Type}

def toList : Outputs α → List α
  | done => []
  | item a next => a :: toList (next ())

@[simp] theorem toList_done : (done : Outputs α).toList = [] := rfl

@[simp] theorem toList_item (a : α) (next : Unit → Outputs α) :
    (item a next).toList = a :: (next ()).toList := rfl

def one (a : α) : Outputs α := item a fun _ => done

@[simp] theorem toList_one (a : α) : (one a).toList = [a] := rfl

def ofList : List α → Outputs α
  | [] => done
  | a :: rest => item a fun _ => ofList rest

@[simp] theorem toList_ofList (l : List α) : (ofList l).toList = l := by
  induction l with
  | nil => rfl
  | cons a l ih => simp [ofList, ih]

def append : Outputs α → (Unit → Outputs α) → Outputs α
  | done, after => after ()
  | item a next, after => item a fun _ => append (next ()) after

@[simp] theorem toList_append (x : Outputs α) (after : Unit → Outputs α) :
    (append x after).toList = x.toList ++ (after ()).toList := by
  induction x with
  | done => rfl
  | item a next ih => simp [append, ih]

def map (f : α → β) : Outputs α → Outputs β
  | done => done
  | item a next => item (f a) fun _ => map f (next ())

@[simp] theorem toList_map (f : α → β) (x : Outputs α) : (map f x).toList = x.toList.map f := by
  induction x with
  | done => rfl
  | item a next ih => simp [map, ih]

def filter (p : α → Bool) : Outputs α → Outputs α
  | done => done
  | item a next => if p a then item a fun _ => filter p (next ()) else filter p (next ())

@[simp] theorem toList_filter (p : α → Bool) (x : Outputs α) :
    (filter p x).toList = x.toList.filter p := by
  induction x with
  | done => rfl
  | item a next ih =>
    simp only [filter, toList_item, List.filter_cons]
    split <;> simp [ih]

def flatMap (f : α → Outputs β) : Outputs α → Outputs β
  | done => done
  | item a next => append (f a) fun _ => flatMap f (next ())

@[simp] theorem toList_flatMap (f : α → Outputs β) (x : Outputs α) :
    (flatMap f x).toList = x.toList.flatMap fun a => (f a).toList := by
  induction x with
  | done => rfl
  | item a next ih => simp [flatMap, ih]

/-- At most the first `n` values. -/
def take : Nat → Outputs α → Outputs α
  | 0, _ => done
  | _ + 1, done => done
  | n + 1, item a next => item a fun _ => take n (next ())

@[simp] theorem toList_take (n : Nat) (x : Outputs α) : (take n x).toList = x.toList.take n := by
  induction x generalizing n with
  | done => cases n <;> simp [take]
  | item a next ih => cases n <;> simp [take, ih]

/-- All values but the first `n`. -/
def drop : Nat → Outputs α → Outputs α
  | 0, x => x
  | _ + 1, done => done
  | n + 1, item _ next => drop n (next ())

@[simp] theorem toList_drop (n : Nat) (x : Outputs α) : (drop n x).toList = x.toList.drop n := by
  induction x generalizing n with
  | done => cases n <;> simp [drop]
  | item a next ih => cases n <;> simp [drop, ih]

/-- The values in front of the first one that `p` refuses. -/
def takeWhile (p : α → Bool) : Outputs α → Outputs α
  | done => done
  | item a next => if p a then item a fun _ => takeWhile p (next ()) else done

@[simp] theorem toList_takeWhile (p : α → Bool) (x : Outputs α) :
    (takeWhile p x).toList = x.toList.takeWhile p := by
  induction x with
  | done => rfl
  | item a next ih =>
    simp only [takeWhile, toList_item, List.takeWhile_cons]
    split <;> simp [ih]

def head? : Outputs α → Option α
  | done => none
  | item a _ => some a

@[simp] theorem head?_toList (x : Outputs α) : x.toList.head? = x.head? := by
  cases x <;> rfl

def foldl (f : β → α → β) (b : β) : Outputs α → β
  | done => b
  | item a next => foldl f (f b a) (next ())

@[simp] theorem foldl_toList (f : β → α → β) (b : β) (x : Outputs α) :
    x.toList.foldl f b = x.foldl f b := by
  induction x generalizing b with
  | done => rfl
  | item a next ih => simp [foldl, ih]

def any (p : α → Bool) : Outputs α → Bool
  | done => false
  | item a next => p a || any p (next ())

@[simp] theorem any_toList (p : α → Bool) (x : Outputs α) : x.toList.any p = x.any p := by
  induction x with
  | done => rfl
  | item a next ih => simp [any, ih]

/-- `a, f a, f (f a), …` while `p` holds, at most `n` of them. -/
def iterate (f : α → α) (p : α → Bool) : Nat → α → Outputs α
  | 0, _ => done
  | n + 1, a => if p a then item a fun _ => iterate f p n (f a) else done

end Outputs

end LeafPlan.Filter
