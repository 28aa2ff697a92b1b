/-
Module: ExitfyCores.Lib.CommitGraph
Layer: Library
Purpose: Commits and their ancestors, and a server whose pushes are audited one by one, each from a base on: once
  every push has passed its audit, no commit that any ref ever had has a bad ancestor.
Imports: Mathlib.Logic.Relation, Mathlib.Logic.Function.Basic
Trusted boundary: none
Main exports: Reaches, InRange, good_of_range, Push, Hub, Hub.Had, Excused, Step, Steps, published_good
Open obligations: none
-/
import Mathlib.Logic.Relation
import Mathlib.Logic.Function.Basic

namespace ExitfyCores.CommitGraph

variable {κ Ref : Type}

/-! ### Ancestors -/

/-- A commit is another one or one of its ancestors. -/
def Reaches (parents : κ → List κ) : κ → κ → Prop :=
  Relation.ReflTransGen fun commit parent => parent ∈ parents commit

/-- The commits of `base..head`. -/
def InRange (parents : κ → List κ) (base head commit : κ) : Prop :=
  Reaches parents head commit ∧ ¬ Reaches parents base commit

variable {parents : κ → List κ} {good : κ → Prop}

/-- What a range leaves out is an ancestor of its base. -/
theorem good_of_range {base head : κ} (range : ∀ commit, InRange parents base head commit → good commit) {commit : κ}
    (reaches : Reaches parents head commit) : good commit ∨ Reaches parents base commit := by
  by_cases older : Reaches parents base commit
  · exact .inr older
  · exact .inl (range commit ⟨reaches, older⟩)

/-! ### Pushes -/

/-- A ref, the commit that it had before, if there was one, and the commit that it has now. -/
structure Push (Ref κ : Type) where
  ref : Ref
  before : Option κ
  after : κ

/-- A server: the commit of each ref, every push so far with the newest first, and the pushes that passed. -/
structure Hub (Ref κ : Type) where
  tips : Ref → Option κ
  pushes : List (Push Ref κ)
  passed : List (Push Ref κ)

/-- A server before the first push. -/
def Hub.start (first : Ref → Option κ) : Hub Ref κ := ⟨first, [], []⟩

/-- A ref had a commit at the start or through one of some pushes. -/
def HadIn (first : Ref → Option κ) (pushes : List (Push Ref κ)) (ref : Ref) (commit : κ) : Prop :=
  first ref = some commit ∨ ∃ push ∈ pushes, push.ref = ref ∧ push.after = commit

/-- A ref had a commit at some time so far. -/
def Hub.Had (first : Ref → Option κ) (hub : Hub Ref κ) (ref : Ref) (commit : κ) : Prop :=
  HadIn first hub.pushes ref commit

/-- The audit of a push may leave a commit to others: the ref had it before, or the trunk has it. -/
def Excused (parents : κ → List κ) (first : Ref → Option κ) (trunk : Ref) (hub : Hub Ref κ) (push : Push Ref κ)
    (commit : κ) : Prop :=
  (∃ base, push.before = some base ∧ Reaches parents base commit) ∨
    push.before = none ∧ ∃ tip, hub.Had first trunk tip ∧ Reaches parents tip commit

section Server

variable [DecidableEq Ref]

/-- A ref moves, a ref other than the trunk goes away, or the audit of a push passes, at any time after the push. -/
inductive Step (trunk : Ref) (audits : Hub Ref κ → Push Ref κ → Prop) : Hub Ref κ → Hub Ref κ → Prop where
  | push (hub : Hub Ref κ) (ref : Ref) (after : κ) :
      Step trunk audits hub
        { hub with
          tips := Function.update hub.tips ref (some after)
          pushes := ⟨ref, hub.tips ref, after⟩ :: hub.pushes }
  | delete (hub : Hub Ref κ) (ref : Ref) (other : ref ≠ trunk) :
      Step trunk audits hub { hub with tips := Function.update hub.tips ref none }
  | audit (hub : Hub Ref κ) (push : Push Ref κ) (pushed : push ∈ hub.pushes) (ran : audits hub push) :
      Step trunk audits hub { hub with passed := push :: hub.passed }

/-- The runs of the server. -/
def Steps (trunk : Ref) (audits : Hub Ref κ → Push Ref κ → Prop) : Hub Ref κ → Hub Ref κ → Prop :=
  Relation.ReflTransGen (Step trunk audits)

end Server

variable {first : Ref → Option κ} {trunk : Ref}

theorem HadIn.cons {pushes : List (Push Ref κ)} {ref : Ref} {commit : κ} (had : HadIn first pushes ref commit)
    (push : Push Ref κ) : HadIn first (push :: pushes) ref commit := by
  rcases had with initial | ⟨earlier, member, facts⟩
  · exact .inl initial
  · exact .inr ⟨earlier, List.mem_cons_of_mem _ member, facts⟩

/-- Every push starts where the pushes before it left the ref, and finds the trunk in place. -/
def Chained (first : Ref → Option κ) (trunk : Ref) : List (Push Ref κ) → Prop
  | [] => True
  | push :: older =>
      (∀ base, push.before = some base → HadIn first older push.ref base) ∧
        (push.ref = trunk → push.before ≠ none) ∧ Chained first trunk older

/-- What every state of a server keeps; `good` is what the audits look for. -/
structure Kept (parents : κ → List κ) (good : κ → Prop) (first : Ref → Option κ) (trunk : Ref) (hub : Hub Ref κ) :
    Prop where
  present : hub.tips trunk ≠ none
  had : ∀ ref commit, hub.tips ref = some commit → hub.Had first ref commit
  chained : Chained first trunk hub.pushes
  passed : ∀ push ∈ hub.passed, ∀ commit, Reaches parents push.after commit →
    good commit ∨ Excused parents first trunk hub push commit

theorem Excused.mono {hub next : Hub Ref κ}
    (kept : ∀ commit, hub.Had first trunk commit → next.Had first trunk commit) {push : Push Ref κ} {commit : κ}
    (excused : Excused parents first trunk hub push commit) : Excused parents first trunk next push commit := by
  rcases excused with before | ⟨absent, tip, had, reaches⟩
  · exact .inl before
  · exact .inr ⟨absent, tip, kept tip had, reaches⟩

theorem kept_start (present : first trunk ≠ none) :
    Kept parents good first trunk (Hub.start first) where
  present := present
  had := fun _ _ initial => .inl initial
  chained := trivial
  passed := by
    intro push member
    cases member

variable [DecidableEq Ref] {audits : Hub Ref κ → Push Ref κ → Prop}

theorem Kept.step (sound : ∀ hub push, audits hub push → ∀ commit, Reaches parents push.after commit →
      good commit ∨ Excused parents first trunk hub push commit)
    {hub next : Hub Ref κ} (kept : Kept parents good first trunk hub) (step : Step trunk audits hub next) :
    Kept parents good first trunk next := by
  cases step with
  | push ref after =>
      refine ⟨?present, ?had, ⟨fun base before => kept.had ref base before, ?placed, kept.chained⟩, ?passed⟩
      case present =>
        by_cases same : trunk = ref
        · simp [same]
        · simpa [Function.update_of_ne same] using kept.present
      case had =>
        intro other commit tip
        dsimp only at tip
        by_cases same : other = ref
        · rw [same, Function.update_self] at tip
          exact .inr ⟨_, List.mem_cons_self, same.symm, Option.some.inj tip⟩
        · rw [Function.update_of_ne same] at tip
          exact (kept.had other commit tip).cons _
      case placed =>
        intro same absent
        exact kept.present (same ▸ absent)
      case passed =>
        intro earlier member commit reaches
        have more : ∀ commit, hub.Had first trunk commit →
            HadIn first (⟨ref, hub.tips ref, after⟩ :: hub.pushes) trunk commit := fun _ had => had.cons _
        exact (kept.passed earlier member commit reaches).imp_right (Excused.mono more)
  | delete ref other =>
      refine ⟨?present, ?had, kept.chained, kept.passed⟩
      case present =>
        simpa [Function.update_of_ne (Ne.symm other)] using kept.present
      case had =>
        intro other' commit tip
        dsimp only at tip
        by_cases same : other' = ref
        · rw [same, Function.update_self] at tip
          cases tip
        · rw [Function.update_of_ne same] at tip
          exact kept.had other' commit tip
  | audit push pushed ran =>
      refine ⟨kept.present, kept.had, kept.chained, ?passed⟩
      intro other member commit reaches
      rcases List.mem_cons.mp member with same | earlier
      · rw [same] at reaches ⊢
        exact sound hub push ran commit reaches
      · exact kept.passed other earlier commit reaches

theorem Kept.steps (sound : ∀ hub push, audits hub push → ∀ commit, Reaches parents push.after commit →
      good commit ∨ Excused parents first trunk hub push commit)
    {hub next : Hub Ref κ} (kept : Kept parents good first trunk hub) (steps : Steps trunk audits hub next) :
    Kept parents good first trunk next := by
  induction steps with
  | refl => exact kept
  | tail _ step ih => exact ih.step sound step

omit [DecidableEq Ref] in
/-- A chain of pushes keeps what holds at the start, if each push keeps what its ref had before it. -/
theorem Chained.had (holds : κ → Prop) (wanted : Ref → Prop)
    (initially : ∀ ref commit, wanted ref → first ref = some commit → holds commit) {pushes : List (Push Ref κ)}
    (chained : Chained first trunk pushes)
    (keeps : ∀ push ∈ pushes, wanted push.ref → (∀ base, push.before = some base → holds base) →
      (push.ref = trunk → push.before ≠ none) → holds push.after)
    {ref : Ref} {commit : κ} (want : wanted ref) (had : HadIn first pushes ref commit) :
    holds commit := by
  induction pushes generalizing ref commit with
  | nil =>
      rcases had with initial | ⟨push, member, _⟩
      · exact initially ref commit want initial
      · cases member
  | cons push older ih =>
      have earlier : ∀ {ref commit}, wanted ref → HadIn first older ref commit → holds commit :=
        ih chained.2.2 (fun other member => keeps other (List.mem_cons_of_mem _ member))
      rcases had with initial | ⟨other, member, same, after⟩
      · exact initially ref commit want initial
      · rcases List.mem_cons.mp member with this | before
        · rw [this] at same after
          have wanted' : wanted push.ref := same.symm ▸ want
          rw [← after]
          exact keeps push List.mem_cons_self wanted'
            (fun base start => earlier wanted' (chained.1 base start)) chained.2.1
        · exact earlier want (.inr ⟨other, before, same, after⟩)

/-- Once every push has passed, no ref ever had a commit with a bad ancestor: the trunk first, whose audits rest on
    its own past alone, and then the other refs. -/
theorem published_good (sound : ∀ hub push, audits hub push → ∀ commit, Reaches parents push.after commit →
      good commit ∨ Excused parents first trunk hub push commit)
    (present : first trunk ≠ none)
    (initially : ∀ ref tip, first ref = some tip → ∀ commit, Reaches parents tip commit → good commit)
    {hub : Hub Ref κ} (steps : Steps trunk audits (Hub.start first) hub)
    (passed : ∀ push ∈ hub.pushes, push ∈ hub.passed) {ref : Ref} {tip : κ} (had : hub.Had first ref tip) {commit : κ}
    (reaches : Reaches parents tip commit) : good commit := by
  have kept : Kept parents good first trunk hub := (kept_start present).steps sound steps
  have onTrunk : ∀ {tip : κ}, hub.Had first trunk tip → ∀ commit, Reaches parents tip commit → good commit := by
    intro tip had
    refine kept.chained.had (fun tip => ∀ commit, Reaches parents tip commit → good commit) (fun ref => ref = trunk)
      (fun ref tip _ => initially ref tip) ?_ rfl had
    intro push member isTrunk older placed commit reaches
    rcases kept.passed push (passed push member) commit reaches with clean | ⟨base, start, reached⟩ | ⟨absent, _⟩
    · exact clean
    · exact older base start commit reached
    · exact absurd absent (placed isTrunk)
  refine kept.chained.had (fun tip => ∀ commit, Reaches parents tip commit → good commit) (fun _ => True)
    (fun ref tip _ => initially ref tip) ?_ trivial had commit reaches
  intro push member _ older _ commit reaches
  rcases kept.passed push (passed push member) commit reaches with
    clean | ⟨base, start, reached⟩ | ⟨_, trunkTip, has, reached⟩
  · exact clean
  · exact older base start commit reached
  · exact onTrunk has commit reached

end ExitfyCores.CommitGraph
