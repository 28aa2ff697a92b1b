/-
Module: ExitfyCores.Lib.Git
Layer: Lib
Purpose: A Git repository with one branch: trees by their paths, commits with their parents, what a diff lists, and
  a push that only moves the branch forward.
Imports: Mathlib.Data.List.Dedup, Mathlib.Data.List.Sort
Trusted boundary: human-reviewed spec; commits are numbered in the order in which they came to be, and their names
  are taken to be injective
Main exports: Entry, Tree, Tree.get, Tree.set, changedPaths, mem_changedPaths, Commit, Repository, Repository.add,
  commit_of_prefix, Repository.ancestors, Repository.distance, Repository.push, push_eq_ok
Open obligations: none
-/
import Mathlib.Data.List.Dedup
import Mathlib.Data.List.Sort

namespace ExitfyCores.Git

/-! ### Trees -/

/-- `100644`, `100755`, `120000` and `160000`. -/
inductive Mode where
  | regular
  | executable
  | link
  | submodule
deriving DecidableEq, Repr

/-- What lies at a path: a file, the target of a link, or the commit of a submodule. -/
structure Entry where
  mode : Mode
  content : List UInt8
deriving DecidableEq, Repr

/-- A tree by its paths; no path occurs twice. -/
structure Tree where
  entries : List (String × Entry)
  nodup : (entries.map Prod.fst).Nodup
deriving DecidableEq

def Tree.paths (tree : Tree) : List String := tree.entries.map Prod.fst

/-- The entry at a path. -/
def Tree.get (tree : Tree) (path : String) : Option Entry :=
  (tree.entries.find? fun entry => entry.1 = path).map Prod.snd

/-- The tree with another entry at a path. -/
def Tree.set (tree : Tree) (path : String) (entry : Entry) : Tree where
  entries := (path, entry) :: tree.entries.filter fun old => old.1 ≠ path
  nodup := by
    rw [List.map_cons, List.nodup_cons]
    constructor
    · simp
    · exact tree.nodup.sublist (List.filter_sublist.map _)

@[simp] theorem Tree.get_set_same (tree : Tree) (path : String) (entry : Entry) :
    (tree.set path entry).get path = some entry := by
  simp [Tree.set, Tree.get]

@[simp] theorem Tree.get_set_other (tree : Tree) {path other : String} (entry : Entry) (different : other ≠ path) :
    (tree.set path entry).get other = tree.get other := by
  have skip : (path, entry).1 ≠ other := fun same => different same.symm
  unfold Tree.set Tree.get
  rw [List.find?_cons_of_neg (by simpa using skip), List.find?_filter]
  congr 2
  funext old
  by_cases same : old.1 = other
  · simp [same, different]
  · simp [same]

theorem Tree.get_eq_none {tree : Tree} {path : String} (absent : path ∉ tree.paths) : tree.get path = none := by
  unfold Tree.get
  rw [Option.map_eq_none_iff, List.find?_eq_none]
  intro entry member same
  apply absent
  rw [← of_decide_eq_true same]
  exact List.mem_map_of_mem member

theorem Tree.mem_of_get {tree : Tree} {path : String} {entry : Entry} (found : tree.get path = some entry) :
    (path, entry) ∈ tree.entries := by
  rcases Option.map_eq_some_iff.mp found with ⟨⟨name, old⟩, located, same⟩
  have named : name = path := by simpa using List.find?_some located
  have member := List.mem_of_find?_eq_some located
  rw [named, show old = entry from same] at member
  exact member

/-! ### What a diff lists -/

/-- The letters of `--name-status` with `--no-renames`. -/
inductive Status where
  | added
  | deleted
  | modified
  | typeChanged
deriving DecidableEq, Repr

/-- Files that are executable or not are of one type. -/
def Mode.SameType (first second : Mode) : Prop :=
  first = second ∨ (first ∈ [.regular, .executable] ∧ second ∈ [.regular, .executable])

instance (first second : Mode) : Decidable (first.SameType second) := inferInstanceAs (Decidable (_ ∨ _))

def status : Option Entry → Option Entry → Status
  | none, _ => .added
  | some _, none => .deleted
  | some old, some new => if old.mode.SameType new.mode then .modified else .typeChanged

/-- The paths that a diff of two trees lists, in their order. -/
def changedPaths (old new : Tree) : List String :=
  ((old.paths ++ new.paths).dedup.filter fun path => old.get path ≠ new.get path).insertionSort (· ≤ ·)

theorem mem_changedPaths {old new : Tree} {path : String} :
    path ∈ changedPaths old new ↔ old.get path ≠ new.get path := by
  simp only [changedPaths, List.mem_insertionSort, List.mem_filter, List.mem_dedup, List.mem_append,
    decide_eq_true_eq]
  constructor
  · exact And.right
  · intro differ
    refine ⟨?_, differ⟩
    by_contra absent
    rcases not_or.mp absent with ⟨notOld, notNew⟩
    rw [Tree.get_eq_none notOld, Tree.get_eq_none notNew] at differ
    exact differ rfl

theorem get_eq_of_not_mem_changedPaths {old new : Tree} {path : String} (unchanged : path ∉ changedPaths old new) :
    new.get path = old.get path := by
  by_contra differ
  exact unchanged (mem_changedPaths.mpr fun same => differ same.symm)

/-! ### Commits -/

structure Commit where
  parents : List Nat
  tree : Tree
deriving DecidableEq

/-- The commits, each younger than its parents, and the branch. -/
structure Repository where
  commits : List Commit
  older : ∀ id (known : id < commits.length), ∀ parent ∈ (commits.get ⟨id, known⟩).parents, parent < id
  main : Nat
  mainKnown : main < commits.length

/-- `git rev-parse` of a commit -/
def Repository.commit (repository : Repository) (id : Nat) : Option Commit := repository.commits[id]?

theorem Repository.commit_lt {repository : Repository} {id : Nat} {commit : Commit}
    (found : repository.commit id = some commit) : id < repository.commits.length :=
  (List.getElem?_eq_some_iff.mp found).1

/-- A commit with one parent. -/
def Repository.add (repository : Repository) (parent : Nat) (known : parent < repository.commits.length)
    (tree : Tree) : Repository where
  commits := repository.commits ++ [⟨[parent], tree⟩]
  older := by
    intro id inside ancestor member
    rcases Nat.lt_or_ge id repository.commits.length with old | new
    · apply repository.older id old
      simpa [List.getElem_append_left old] using member
    · have last : id = repository.commits.length := by
        rw [List.length_append, List.length_singleton] at inside
        exact Nat.le_antisymm (Nat.le_of_lt_succ inside) new
      subst last
      have only : ancestor = parent := by simpa using member
      exact only ▸ known
  main := repository.main
  mainKnown := by
    rw [List.length_append]
    exact Nat.lt_add_right 1 repository.mainKnown

/-- A commit keeps its name when others come to be. -/
theorem commit_of_prefix {repository next : Repository} (kept : repository.commits <+: next.commits) {id : Nat}
    {commit : Commit} (found : repository.commit id = some commit) : next.commit id = some commit := by
  rcases kept with ⟨later, extended⟩
  unfold Repository.commit at found ⊢
  rw [← extended, List.getElem?_append_left (List.getElem?_eq_some_iff.mp found).1]
  exact found

@[simp] theorem commit_add (repository : Repository) (parent : Nat) (known : parent < repository.commits.length)
    (tree : Tree) : (repository.add parent known tree).commit repository.commits.length = some ⟨[parent], tree⟩ := by
  simp [Repository.commit, Repository.add]

/-! ### Ancestors -/

def Repository.parents (repository : Repository) (id : Nat) : List Nat :=
  ((repository.commit id).map Commit.parents).getD []

/-- What a walk over parents reaches; the first argument bounds its depth. -/
def Repository.walk (repository : Repository) : Nat → Nat → List Nat
  | 0, _ => []
  | depth + 1, id => id :: (repository.parents id).flatMap (repository.walk depth)

/-- A commit and all that it descends from. Parents are older, so the walk ends within the number of the commit. -/
def Repository.ancestors (repository : Repository) (id : Nat) : List Nat := (repository.walk (id + 1) id).dedup

/-- `git rev-list --count base..id` -/
def Repository.distance (repository : Repository) (base id : Nat) : Nat :=
  ((repository.ancestors id).filter fun ancestor => ancestor ∉ repository.ancestors base).length

/-- `git push` of a commit to the branch: the branch only moves to a commit that descends from where it is. -/
def Repository.push (repository : Repository) (id : Nat) : Except String Repository :=
  if known : id < repository.commits.length then
    if repository.main ∈ repository.ancestors id then .ok { repository with main := id, mainKnown := known }
    else .error "failed to push some refs: non-fast-forward"
  else .error "src refspec does not match any"

theorem push_eq_ok {repository next : Repository} {id : Nat} (pushed : repository.push id = .ok next) :
    next.commits = repository.commits ∧ next.main = id := by
  unfold Repository.push at pushed
  split at pushed
  · split at pushed
    · cases pushed
      exact ⟨rfl, rfl⟩
    · cases pushed
  · cases pushed

end ExitfyCores.Git
