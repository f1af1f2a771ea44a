import Mathlib
import LeafPlan.CommandLine.Stages
import LeafPlan.Proofs.Except
import LeafPlan.Proofs.Members

/-!
# Files that were written

What is written to a file is read from it afterwards, along the same path. The path may lead through any directories
on its way, also up again and through the one that the file is added to, so what counts is that a write leaves every
directory in place with all of its names.
-/

namespace LeafPlan

namespace Entry

/-- Where `e` has a directory along `location`, so does `g`, with all names that it holds in `e`. -/
def KeepsDirectories (e g : Entry) : Prop :=
  ∀ location entries, e.at? location = some (.directory entries) →
    ∃ left, g.at? location = some (.directory left) ∧
      ∀ name, (Members.find? name entries).isSome → (Members.find? name left).isSome

theorem isSome_find?_insert {α : Type} {name other : String} {m : Members α} (v : α)
    (there : (Members.find? name m).isSome) : (Members.find? name (Members.insert other v m)).isSome := by
  rw [Members.find?_insert]
  split
  · rfl
  · exact there

theorem at?_cons_directory (name : String) (names : List String) (entries : Members Entry) :
    at? (name :: names) (.directory entries) = (Members.find? name entries).bind (at? names) := by
  rw [at?]

theorem at?_cons_eq_some_iff {name : String} {names : List String} {e x : Entry} :
    e.at? (name :: names) = some x ↔
      ∃ entries child, e = .directory entries ∧ Members.find? name entries = some child ∧ child.at? names = some x := by
  cases e with
  | file bytes => exact iff_of_false nofun nofun
  | closed isDirectory reason => exact iff_of_false nofun nofun
  | directory entries =>
    rw [at?_cons_directory, Option.bind_eq_some_iff]
    constructor
    · rintro ⟨child, found, there⟩
      exact ⟨entries, child, rfl, found, there⟩
    · rintro ⟨_, child, ⟨rfl⟩, found, there⟩
      exact ⟨child, found, there⟩

theorem at?_append {names more : List String} {e : Entry} : e.at? (names ++ more) = (e.at? names).bind (at? more) := by
  induction names generalizing e with
  | nil => rfl
  | cons name names ih =>
    refine Option.ext fun x => ?_
    simp only [List.cons_append, Option.bind_eq_some_iff, at?_cons_eq_some_iff, ih]
    constructor
    · rintro ⟨entries, child, rfl, found, y, there, below⟩
      exact ⟨y, ⟨entries, child, rfl, found, there⟩, below⟩
    · rintro ⟨y, ⟨entries, child, rfl, found, there⟩, below⟩
      exact ⟨entries, child, rfl, found, y, there, below⟩

theorem put_keeps_directories {x : Entry} {names : List String} {e : Entry}
    (free : ∀ entries, e.at? names ≠ some (.directory entries)) : e.KeepsDirectories (put x names e) := by
  induction names generalizing e with
  | nil =>
    intro location entries there
    cases location with
    | nil => exact absurd there (free entries)
    | cons next location =>
      obtain ⟨here, child, rfl, -, -⟩ := at?_cons_eq_some_iff.mp there
      exact absurd rfl (free here)
  | cons name names ih =>
    intro location entries there
    cases location with
    | nil =>
      cases there
      exact ⟨_, rfl, fun _ => isSome_find?_insert _⟩
    | cons next location =>
      obtain ⟨here, child, rfl, found, below⟩ := at?_cons_eq_some_iff.mp there
      rw [put, at?_cons_directory, Members.find?_insert]
      split
      · rename_i same
        subst same
        have freeBelow (entries : Members Entry) : child.at? names ≠ some (.directory entries) := by
          have above := free entries
          rwa [at?_cons_directory, found] at above
        rw [found]
        exact ih freeBelow location entries below
      · rw [found]
        exact ⟨entries, below, fun _ => id⟩

theorem at?_put {x : Entry} {name : String} {names : List String} {e : Entry} {entries : Members Entry}
    (there : e.at? names = some (.directory entries)) : (put x (names ++ [name]) e).at? (names ++ [name]) = some x := by
  induction names generalizing e with
  | nil =>
    cases there
    simp [put, at?]
  | cons next names ih =>
    obtain ⟨here, child, rfl, found, there⟩ := at?_cons_eq_some_iff.mp there
    rw [List.cons_append, put, at?_cons_directory, Members.find?_insert_self, found]
    exact ih there

end Entry

namespace Files

/-! ### Paths after a change -/

variable {f g : Files}

theorem entriesAt_eq_ok_iff {location : List String} {entries : Members Entry} :
    f.entriesAt location = .ok entries ↔ f.root.at? location = some (.directory entries) := by
  rw [entriesAt]
  rcases f.root.at? location with _ | bytes | here | ⟨_ | _, reason⟩ <;> simp [Entry.entries]

theorem step_of_keeps (kept : f.root.KeepsDirectories g.root) {location left : List String} {name : String}
    (stepped : f.step location name = .ok left) : g.step location name = .ok left := by
  rw [step] at stepped
  cases opened : f.entriesAt location with
  | error e =>
    rw [opened] at stepped
    cases stepped
  | ok entries =>
    obtain ⟨more, there, names⟩ := kept location entries (entriesAt_eq_ok_iff.mp opened)
    rw [step, entriesAt_eq_ok_iff.mpr there]
    rw [opened] at stepped
    dsimp only at stepped ⊢
    split_ifs at stepped with here up listed
    · rwa [if_pos here]
    · rwa [if_neg here, if_pos up]
    · rwa [if_neg here, if_neg up, if_pos (names name listed)]

theorem walk_of_keeps (kept : f.root.KeepsDirectories g.root) {location left names : List String}
    (walked : f.walk location names = .ok left) : g.walk location names = .ok left := by
  rw [walk] at walked ⊢
  induction names generalizing location with
  | nil => exact walked
  | cons name names ih =>
    rw [List.foldlM_cons] at walked ⊢
    obtain ⟨next, stepped, walked⟩ := bind_eq_ok_iff.mp walked
    rw [step_of_keeps kept stepped]
    exact ih walked

theorem add_keeps_directories {location : List String} {name : String} {x : Entry} {entries : Members Entry}
    (opened : f.entriesAt location = .ok entries)
    (free : ∀ below, Members.find? name entries ≠ some (.directory below)) :
    f.root.KeepsDirectories (f.add location name x).root := by
  refine Entry.put_keeps_directories fun below there => free below ?_
  rw [Entry.at?_append, entriesAt_eq_ok_iff.mp opened, Option.bind_some, Entry.at?_cons_directory] at there
  obtain ⟨child, found, ⟨⟩⟩ := Option.bind_eq_some_iff.mp there
  exact found

theorem walk_of_step {start location left names : List String} {name : String}
    (walked : f.walk start names = .ok location) (stepped : f.step location name = .ok left) :
    f.walk start (names ++ [name]) = .ok left := by
  rw [walk] at walked ⊢
  rw [List.foldlM_append, walked]
  exact bind_eq_ok_iff.mpr ⟨location, rfl, bind_eq_ok_iff.mpr ⟨left, stepped, rfl⟩⟩

theorem step_of_at? {location : List String} {name : String} {x : Entry} (notHere : name ≠ ".") (notUp : name ≠ "..")
    (there : f.root.at? (location ++ [name]) = some x) : f.step location name = .ok (location ++ [name]) := by
  rw [Entry.at?_append] at there
  obtain ⟨e, reached, below⟩ := Option.bind_eq_some_iff.mp there
  obtain ⟨entries, child, rfl, found, -⟩ := Entry.at?_cons_eq_some_iff.mp below
  rw [step, entriesAt_eq_ok_iff.mpr reached]
  dsimp only
  rw [if_neg notHere, if_neg notUp, if_pos (by rw [found]; rfl)]

theorem names_of_empty : (FilePath.parse "").names = [] := by cbv

/-- What a write comes to: the file is an entry of a directory that is there, and it takes no directory's place. -/
theorem exists_of_write {path : String} {bytes : ByteArray} (written : f.write path bytes = .ok g) :
    let p := FilePath.parse path
    ∃ names name location entries, p.names = names ++ [name] ∧ p.slash = false ∧ name ≠ "." ∧ name ≠ ".." ∧
      f.walk (f.start p.absolute) names = .ok location ∧ f.entriesAt location = .ok entries ∧
      (∀ below, Members.find? name entries ≠ some (.directory below)) ∧
      g = f.add location name (.file bytes) := by
  intro p
  rw [write] at written
  split at written
  · cases written
  · rename_i name last
    split at written
    · cases written
    · rename_i location walked
      split at written
      · cases written
      · rename_i entries opened
        split at written
        · cases written
        · rename_i bare
          simp only [Bool.or_eq_true, decide_eq_true_eq, not_or, Bool.not_eq_true] at bare
          obtain ⟨⟨bare, notHere⟩, notUp⟩ := bare
          have split : p.names = p.names.dropLast ++ [name] := (List.dropLast_append_getLast? name last).symm
          refine ⟨_, name, location, entries, split, bare, notHere, notUp, walked, opened, fun below found => ?_, ?_⟩
          · rw [found] at written
            cases written
          · split at written <;> cases written <;> rfl

/-- A file that was written is read as it was written. -/
theorem read_of_write {path : String} {bytes : ByteArray} (written : f.write path bytes = .ok g) :
    g.read path = .ok bytes := by
  obtain ⟨names, name, location, entries, split, bare, notHere, notUp, walked, opened, free, rfl⟩ :=
    exists_of_write written
  have named : path ≠ "" := by
    rintro rfl
    rw [names_of_empty] at split
    simp at split
  have kept := add_keeps_directories (x := .file bytes) opened free
  have there : (f.add location name (.file bytes)).root.at? (location ++ [name]) = some (.file bytes) :=
    Entry.at?_put (entriesAt_eq_ok_iff.mp opened)
  have located : (f.add location name (.file bytes)).locate path = .ok (location ++ [name]) := by
    rw [locate, if_neg named, bare, if_neg Bool.false_ne_true, split]
    exact walk_of_step (walk_of_keeps kept walked) (step_of_at? notHere notUp there)
  rw [read, find, located]
  dsimp only
  rw [there]

end Files

/-- What is put out into a file is in it afterwards, whatever the file held before, and nothing is printed. -/
theorem emit_some (file text : String) (files : Files) :
    (emit (some file) text files).1 = "" ∧
      ((emit (some file) text files).2.2 = none →
        (emit (some file) text files).2.1.read file = .ok text.toUTF8) := by
  rw [emit]
  rcases files.makeDirectories _ _ with ⟨made, none | e⟩
  · dsimp only
    cases written : made.write file text.toUTF8 with
    | ok left => exact ⟨rfl, fun _ => Files.read_of_write written⟩
    | error e => exact ⟨rfl, nofun⟩
  · exact ⟨rfl, nofun⟩

end LeafPlan
