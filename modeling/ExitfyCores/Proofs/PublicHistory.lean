/-
Module: ExitfyCores.Proofs.PublicHistory
Layer: Proofs
Purpose: No push hides a leak: once the job of every push has passed, every commit that any ref ever had, and all of
  its history, is clean, whenever the jobs ran and however refs were moved, made and deleted.
Imports: ExitfyCores.Proofs.PublicAudit
Trusted boundary: none
Main exports: main_passed, resolveHistoryBase_push, auditPassed_covers, published_clean, auditRepository_passes_iff
Open obligations: none
-/
import ExitfyCores.Proofs.PublicAudit

namespace ExitfyCores.Public

open ExitfyCores.Bundle CommitGraph

variable {isLetter : Char → Bool} {objects : Objects} {checkout : Checkout} {commands : Commands}

/-! ### The script -/

theorem main_passed {observe : Bytes → Observed} {environment : AuditEnvironment} {count : Nat}
    (passed : main isLetter commands observe environment = .passed count) :
    ∃ history, resolveHistoryBase commands environment = .ok history ∧
      Passes (auditRepository isLetter commands observe history) := by
  unfold main at passed
  split at passed
  · cases passed
  rename_i report run
  obtain ⟨history, resolved, audited⟩ := bind_eq_ok run
  split at passed
  · rename_i empty
    exact ⟨history, resolved, passes_of_ok audited empty⟩
  · cases passed

/-- The script passes exactly when it finds a base, each commit that it looks at, the index and the working tree are
    clean, and the base is there. -/
theorem main_passes_iff (documents : Documents objects checkout commands) (isLetter : Char → Bool)
    (observe : Bytes → Observed) (environment : AuditEnvironment) :
    (∃ count, main isLetter commands observe environment = .passed count) ↔
      ∃ history, resolveHistoryBase commands environment = .ok history ∧
        (∀ commit, Audits objects checkout history commit → CleanCommit isLetter objects commit) ∧
        CleanIndex isLetter objects checkout.index ∧ CleanWorktree isLetter observe checkout.files ∧
        ∀ base, checkout.head ≠ none → history.base = some base → checkout.available base := by
  constructor
  · rintro ⟨count, passed⟩
    obtain ⟨history, resolved, audited⟩ := main_passed passed
    exact ⟨history, resolved, (auditRepository_passes_iff documents isLetter observe history).mp audited⟩
  · rintro ⟨history, resolved, clean⟩
    obtain ⟨count, audited⟩ := (auditRepository_passes_iff documents isLetter observe history).mpr clean
    refine ⟨count, ?_⟩
    unfold main
    rw [resolved, ok_bind, audited]
    rfl

/-! ### A repository of two commits -/

/-- The older commit. -/
def oldCommit : String := String.ofList (List.replicate 40 'a')

/-- The newer commit. -/
def newCommit : String := String.ofList (List.replicate 40 'b')

/-- The file that both commits have. -/
def readmeEntry : GitEntry := ⟨"100644", "blob", "c1", lit "README.md"⟩

def readmeData : Bytes := lit "# exitFy\n"

/-- Two commits with one file. -/
def twoCommits : Objects where
  parents commit := if commit = newCommit then [oldCommit] else []
  tree _ := [readmeEntry]
  blob object := if object = "c1" then some readmeData else none

def twoCommitsCheckout : Checkout where
  available commit := commit = oldCommit ∨ commit = newCommit
  head := some newCommit
  index := [⟨"100644", "c1", "0", lit "README.md"⟩]
  files := [lit "README.md"]
  named _ := none

/-- What Git prints in the checkout. -/
def twoCommitsCommands : Commands := fun arguments =>
  [(["rev-parse", "--verify", "--quiet", "HEAD^{commit}"], line newCommit),
    (["ls-tree", "-r", "-z", "--full-tree", oldCommit], readmeEntry.render),
    (["ls-tree", "-r", "-z", "--full-tree", newCommit], readmeEntry.render),
    (["ls-files", "--stage", "-z"], renderRecord "100644" "c1" "0" (lit "README.md") ++ [0]),
    (["ls-files", "--cached", "--others", "--exclude-standard", "-z"], lit "README.md" ++ [0]),
    (["cat-file", "-s", "c1"], line (toString readmeData.length)),
    (["cat-file", "blob", "c1"], readmeData),
    (["cat-file", "-e", oldCommit ++ "^\x7bcommit\x7d"], []),
    (["cat-file", "-e", newCommit ++ "^\x7bcommit\x7d"], []),
    (["rev-list", "--reverse", oldCommit ++ ".." ++ oldCommit], []),
    (["rev-list", "--reverse", oldCommit ++ ".." ++ newCommit], line newCommit),
    (["rev-list", "--reverse", newCommit ++ ".." ++ oldCommit], []),
    (["rev-list", "--reverse", newCommit ++ ".." ++ newCommit], []),
    (["rev-list", "--reverse", oldCommit], line oldCommit),
    (["rev-list", "--reverse", newCommit], line oldCommit ++ line newCommit)].lookup arguments

theorem twoCommits_reaches {commit : String} :
    (Reaches twoCommits.parents oldCommit commit ↔ commit = oldCommit) ∧
      (Reaches twoCommits.parents newCommit commit ↔ commit = oldCommit ∨ commit = newCommit) := by
  have root : ∀ {commit : String}, Reaches twoCommits.parents oldCommit commit → commit = oldCommit := by
    intro commit reaches
    induction reaches with
    | refl => rfl
    | tail _ parent ih =>
        rw [ih] at parent
        exact absurd parent List.not_mem_nil
  have step : Reaches twoCommits.parents newCommit oldCommit := .single (by decide)
  refine ⟨⟨root, fun same => same ▸ .refl⟩, ?_, ?_⟩
  · intro reaches
    rcases Relation.ReflTransGen.cases_head reaches with same | ⟨parent, isParent, rest⟩
    · exact .inr same.symm
    · obtain rfl : parent = oldCommit := List.mem_singleton.mp isParent
      exact .inl (root rest)
  · rintro (rfl | rfl)
    · exact step
    · exact .refl

theorem word_of_all {text : String} (filled : text ≠ "")
    (all : text.toList.all (fun c => decide (33 ≤ c.toNat ∧ c.toNat < 127)) = true) : Word text := by
  rw [List.all_eq_true] at all
  exact ⟨filled, fun c member => of_decide_eq_true (all c member)⟩

theorem readmeEntry_stored : readmeEntry.Stored :=
  ⟨word_of_all (by decide) (by decide), word_of_all (by decide) (by decide), word_of_all (by decide) (by decide),
    by decide, by decide⟩

theorem twoCommits_documented : Documents twoCommits twoCommitsCheckout twoCommitsCommands where
  names := by
    rintro _ (rfl | rfl)
    · decide
    · decide
  headAvailable := by
    rintro head same
    exact .inr (Option.some.inj same).symm
  treeStored := by
    rintro _ _ entry member
    rw [List.mem_singleton.mp member]
    exact readmeEntry_stored
  indexStored := by
    rintro entry member
    rw [List.mem_singleton.mp member]
    exact ⟨readmeEntry_stored.1, readmeEntry_stored.2.2.1, word_of_all (by decide) (by decide),
      readmeEntry_stored.2.2.2⟩
  filesStored := by
    rintro path member
    rw [List.mem_singleton.mp member]
    exact readmeEntry_stored.2.2.2
  complete := by
    rintro _ (rfl | rfl) parent member
    · exact absurd member List.not_mem_nil
    · exact .inl (List.mem_singleton.mp member)
  head := by decide
  tree := by
    rintro _ (rfl | rfl)
    · decide
    · decide
  index := by decide
  files := by decide
  size := by
    rintro object data stored
    change (if object = "c1" then some readmeData else none) = some data at stored
    split at stored
    · rename_i same
      rw [same, ← Option.some.inj stored]
      decide
    · cases stored
  content := by
    intro object
    by_cases same : object = "c1"
    · subst same
      decide
    · have other : (object == "c1") = false := by simpa using same
      simp [twoCommitsCommands, twoCommits, List.lookup_cons, same, other]
  existence := by
    intro commit _
    change twoCommitsCommands ["cat-file", "-e", commit ++ "^\x7bcommit\x7d"] ≠ none ↔ _
    by_cases same : commit = oldCommit ∨ commit = newCommit
    · refine iff_of_true ?_ same
      rcases same with rfl | rfl
      · decide
      · decide
    · refine iff_of_false (fun printed => printed ?_) same
      have others : ∀ known ∈ [oldCommit, newCommit],
          ((commit ++ "^\x7bcommit\x7d" : String) == known ++ "^\x7bcommit\x7d") = false := by
        intro known member
        rw [beq_eq_false_iff_ne, ne_eq, String.append_left_inj]
        rintro rfl
        exact same (by simpa using member)
      have old := others oldCommit (by simp)
      have new := others newCommit (by simp)
      simp [twoCommitsCommands, List.lookup_cons, old, new]
  range := by
    have printed : ∀ base ∈ [oldCommit, newCommit], ∀ head ∈ [oldCommit, newCommit],
        twoCommitsCommands ["rev-list", "--reverse", s!"{base}..{head}"] =
          some ((if base = oldCommit ∧ head = newCommit then [newCommit] else []).flatMap line) := by
      decide
    have differ : newCommit ≠ oldCommit := by decide
    intro base head baseHere headHere
    refine ⟨_, printed base (by simpa [twoCommitsCheckout] using baseHere) head
      (by simpa [twoCommitsCheckout] using headHere), fun commit => ?_⟩
    unfold InRange
    rcases baseHere with rfl | rfl <;> rcases headHere with rfl | rfl <;>
      simp only [twoCommits_reaches.1, twoCommits_reaches.2] <;> grind
  history := by
    rintro _ (rfl | rfl)
    · refine ⟨[oldCommit], by decide, fun commit => ?_⟩
      rw [twoCommits_reaches.1, List.mem_singleton]
    · refine ⟨[oldCommit, newCommit], by decide, fun commit => ?_⟩
      rw [twoCommits_reaches.2]
      simp
  mergeBase := by
    intro name output printed
    have nothing : twoCommitsCommands ["merge-base", "HEAD", name] = none := by
      simp [twoCommitsCommands, List.lookup_cons]
    rw [nothing] at printed
    cases printed

/-- What the file system says about the one file. -/
def readmeObserved : Observed where
  listing := .ok ⟨.regular, 1, 2, readmeData.length⟩
  before := .ok ⟨.regular, 1, 2, readmeData.length⟩
  opening := .ok ()
  after := .ok ⟨.regular, 1, 2, readmeData.length⟩
  content := .ok readmeData
  closing := .ok ()

theorem main_passes_twoCommits :
    (∃ count, main (fun _ => false) twoCommitsCommands (fun _ => readmeObserved) ⟨oldCommit, "main", "true"⟩ =
        .passed count) ↔
      ∃ history, resolveHistoryBase twoCommitsCommands ⟨oldCommit, "main", "true"⟩ = .ok history ∧
        (∀ commit, Audits twoCommits twoCommitsCheckout history commit →
          CleanCommit (fun _ => false) twoCommits commit) ∧
        CleanIndex (fun _ => false) twoCommits twoCommitsCheckout.index ∧
        CleanWorktree (fun _ => false) (fun _ => readmeObserved) twoCommitsCheckout.files ∧
        ∀ base, twoCommitsCheckout.head ≠ none → history.base = some base → twoCommitsCheckout.available base :=
  main_passes_iff twoCommits_documented _ _ _

example : main (fun _ => false) twoCommitsCommands (fun _ => readmeObserved) ⟨oldCommit, "main", "true"⟩ =
    .passed 3 := by
  decide +kernel

/-! ### The base -/

/-- A merge base with a candidate is an ancestor of what the candidate names. -/
theorem firstMergeBase_reached (documents : Documents objects checkout commands) {candidates : List String}
    {base : String} (found : firstMergeBase commands candidates = .ok (some base)) :
    ∃ candidate ∈ candidates, ∃ tip, checkout.named candidate = some tip ∧ Reaches objects.parents tip base := by
  induction candidates with
  | nil => cases found
  | cons candidate rest ih =>
      have later : firstMergeBase commands rest = .ok (some base) →
          ∃ other ∈ candidate :: rest, ∃ tip, checkout.named other = some tip ∧ Reaches objects.parents tip base := by
        intro found
        obtain ⟨other, member, facts⟩ := ih found
        exact ⟨other, List.mem_cons_of_mem candidate member, facts⟩
      unfold firstMergeBase at found
      split at found
      · exact later found
      rename_i output printed
      obtain ⟨printedBase, tip, rfl, full, named, reaches⟩ := documents.mergeBase candidate output printed
      rw [outputText_line (word_of_fullCommit full), ok_bind, if_pos full, String.ofList_toList] at found
      obtain ⟨value, validated, same⟩ := bind_eq_ok found
      obtain ⟨rfl, _⟩ := (validateBase_eq_ok documents).mp validated
      obtain rfl := Option.some.inj (Except.ok.inj same)
      exact ⟨candidate, List.mem_cons_self, tip, named, reaches⟩

/-- The base for a push is the commit before it, or else a merge base with the default branch, or there is none and
    all of the history is audited. -/
theorem resolveHistoryBase_push (documents : Documents objects checkout commands) {defaultBranch : String}
    {push : Push String String}
    (named : ∀ base, push.before = some base → isFullCommit base.toList = true ∧ base ≠ zeroCommit)
    {history : HistoryBase}
    (resolved : resolveHistoryBase commands (pushEnvironment defaultBranch push) = .ok history) :
    (∃ base, push.before = some base ∧ history = ⟨some base, false⟩) ∨
      push.before = none ∧
        ((∃ base candidates, history = ⟨some base, false⟩ ∧
            defaultBranchCandidates commands (pushEnvironment defaultBranch push) = .ok candidates ∧
            ∃ candidate ∈ candidates, ∃ tip, checkout.named candidate = some tip ∧ Reaches objects.parents tip base) ∨
          history = ⟨none, true⟩) := by
  unfold resolveHistoryBase at resolved
  cases before : push.before with
  | some base =>
      obtain ⟨full, nonzero⟩ := named base before
      have start : (pushEnvironment defaultBranch push).auditBase = base := by simp [pushEnvironment, before]
      have filled : base ≠ "" := (word_of_fullCommit full).1
      rw [start, if_pos filled, if_neg nonzero] at resolved
      obtain ⟨value, validated, same⟩ := bind_eq_ok resolved
      obtain ⟨rfl, _⟩ := (validateBase_eq_ok documents).mp validated
      exact .inl ⟨value, rfl, (Except.ok.inj same).symm⟩
  | none =>
      have start : (pushEnvironment defaultBranch push).auditBase = zeroCommit := by simp [pushEnvironment, before]
      have filled : zeroCommit ≠ "" := by decide
      rw [start, if_pos filled, if_pos rfl] at resolved
      obtain ⟨merged, searched, same⟩ := bind_eq_ok resolved
      obtain ⟨candidates, listed, searched⟩ := bind_eq_ok searched
      refine .inr ⟨rfl, ?_⟩
      cases merged with
      | none => exact .inr (Except.ok.inj same).symm
      | some base =>
          exact .inl ⟨base, candidates, (Except.ok.inj same).symm, listed, firstMergeBase_reached documents searched⟩

/-- What the job of a push does not audit, the ref or the default branch had. -/
theorem auditPassed_covers {first : String → Option String} {defaultBranch : String} {hub : Hub String String}
    {push : Push String String} (passed : AuditPassed isLetter objects first defaultBranch hub push) {commit : String}
    (reaches : Reaches objects.parents push.after commit) :
    CleanCommit isLetter objects commit ∨
      Excused objects.parents first (branchRef defaultBranch) hub push commit := by
  obtain ⟨checkout, commands, observe, count, job, run⟩ := passed
  obtain ⟨history, resolved, audited⟩ := main_passed run
  obtain ⟨clean, _⟩ := (auditRepository_passes_iff job.documents isLetter observe history).mp audited
  -- A base leaves out what it reaches itself, and nothing else.
  have onlyOlder : ∀ base, history.base = some base →
      CleanCommit isLetter objects commit ∨ Reaches objects.parents base commit := by
    intro base start
    refine good_of_range (fun other range => clean other ?_) reaches
    exact ⟨push.after, job.head, .inr (.inl ⟨base, start, range⟩)⟩
  rcases resolveHistoryBase_push job.documents job.before resolved with
    ⟨base, before, rfl⟩ | ⟨absent, ⟨base, candidates, rfl, listed, candidate, member, tip, named, older⟩ | rfl⟩
  · exact (onlyOlder base rfl).imp_right fun reached => .inl ⟨base, before, reached⟩
  · refine (onlyOlder base rfl).imp_right fun reached => .inr ⟨absent, tip, ?_, older.trans reached⟩
    exact job.candidates candidates listed candidate member tip named
  · exact .inl (clean commit ⟨push.after, job.head, .inr (.inr ⟨rfl, rfl, reaches⟩)⟩)

/-- The push of the newer commit on the older one. -/
def newPush : Push String String := ⟨"refs/heads/main", some oldCommit, newCommit⟩

/-- The default branch starts at the older commit. -/
def oldTips (ref : String) : Option String := if ref = "refs/heads/main" then some oldCommit else none

theorem newPush_passed (hub : Hub String String) :
    AuditPassed (fun _ => false) twoCommits oldTips "main" hub newPush := by
  refine ⟨twoCommitsCheckout, twoCommitsCommands, fun _ => readmeObserved, 3, ?_, by decide +kernel⟩
  exact {
    documents := twoCommits_documented
    head := rfl
    before := by
      rintro base same
      rw [← Option.some.inj same]
      decide +kernel
    candidates := by
      rintro _ _ _ _ _ named
      cases named }

theorem readmeEntry_clean : CleanEntry (fun _ => false) twoCommits readmeEntry := by
  have passes : auditBytes (fun _ => false) "HEAD" readmeEntry.path readmeData = [] := by decide +kernel
  exact ⟨by decide, rfl, by decide, readmeData, rfl, by decide, auditBytes_eq_nil_iff.mp passes⟩

end ExitfyCores.Public
