/-
Module: ExitfyCores.Lib.Regex
Layer: Library
Purpose: Leftmost-first regular expressions over an arbitrary alphabet, in the fragment whose
  repetitions are repetitions of one symbol class. `ends` lists the ends of all matches at a position in
  the order in which a backtracking matcher tries them, so its head is the match the matcher reports;
  `Matches` is the declarative reading of the same syntax. Searching, finding all matches and replacing
  all matches are structural recursions over the text.
Imports: Mathlib.Data.List.Basic, Mathlib.Data.List.Forall2
Trusted boundary: human-reviewed spec
Main exports: Regex, Regex.ends, Regex.Matches, Regex.mem_ends, Regex.findFrom, Regex.replaceFrom,
  Regex.replaceFrom_append, Regex.ends_append_eq_nil_iff, Regex.matches_seqs_cons, Regex.matches_alts,
  Regex.firstFrom_append
Open obligations: empty matches are skipped by `findFrom` and `replaceFrom`, so both are meant for
  expressions that match no empty text.
-/
import Mathlib.Data.List.Basic
import Mathlib.Data.List.Forall2

namespace ExitfyCores

universe u

/-- Regular expressions over the alphabet `α`. A class is a predicate on symbols; `boundary word` is the
    zero-width word boundary of the class `word`; `many p` is the greedy repetition `[p]*`. -/
inductive Regex (α : Type u) where
  | eps
  | sat (p : α → Bool)
  | boundary (word : α → Bool)
  | seq (first second : Regex α)
  | alt (first second : Regex α)
  | many (p : α → Bool)

namespace Regex

variable {α : Type u}

/-- `r?`, greedy. -/
def opt (r : Regex α) : Regex α := .alt r .eps

/-- `[p]+`, greedy. -/
def some1 (p : α → Bool) : Regex α := .seq (.sat p) (.many p)

/-- Alternation of a list, tried in list order. -/
def alts : List (Regex α) → Regex α
  | [] => .sat fun _ => false
  | [r] => r
  | r :: rs => .alt r (alts rs)

/-- Concatenation of a list. -/
def seqs : List (Regex α) → Regex α
  | [] => .eps
  | [r] => r
  | r :: rs => .seq r (seqs rs)

/-- The symbol before the position reached by reading `read` after `before`. -/
def advance (before : Option α) : List α → Option α
  | [] => before
  | c :: read => advance (some c) read

/-- Whether one side of a position holds a symbol of the class `word`. -/
def wordSide (word : α → Bool) (side : Option α) : Bool :=
  side.any word

/-- Ends of `[p]*`, the longest repetition first. -/
def manyEnds (p : α → Bool) : Option α → List α → List (Option α × List α)
  | before, [] => [(before, [])]
  | before, c :: rest =>
      if p c then manyEnds p (some c) rest ++ [(before, c :: rest)]
      else [(before, c :: rest)]

/-- The ends of all matches at a position, in matching priority. A position is the symbol before it
    together with the text after it. -/
def ends : Regex α → Option α → List α → List (Option α × List α)
  | .eps, before, text => [(before, text)]
  | .sat p, _, c :: rest => if p c then [(some c, rest)] else []
  | .sat _, _, [] => []
  | .boundary word, before, text =>
      if wordSide word before != wordSide word text.head? then [(before, text)] else []
  | .seq first second, before, text =>
      (ends first before text).flatMap fun position => ends second position.1 position.2
  | .alt first second, before, text => ends first before text ++ ends second before text
  | .many p, before, text => manyEnds p before text

/-- Length of the match reported at a position. -/
def matchLength (r : Regex α) (before : Option α) (text : List α) : Option Nat :=
  (r.ends before text).head?.map fun position => text.length - position.2.length

/-- Offsets of all successive non-overlapping matches, found from left to right. `skip` symbols still
    belong to the match found last, and `offset` is the offset of the head of the text. -/
def findFrom (r : Regex α) : Nat → Option α → Nat → List α → List (Nat × Nat)
  | _, _, _, [] => []
  | skip + 1, _, offset, c :: rest => findFrom r skip (some c) (offset + 1) rest
  | 0, before, offset, c :: rest =>
      match r.matchLength before (c :: rest) with
      | some (length + 1) =>
          (offset, offset + length + 1) :: findFrom r length (some c) (offset + 1) rest
      | _ => findFrom r 0 (some c) (offset + 1) rest

/-- All successive non-overlapping matches of `r` in a text. -/
def findAll (r : Regex α) (text : List α) : List (Nat × Nat) :=
  r.findFrom 0 none 0 text

/-- The text with every successive non-overlapping match replaced. -/
def replaceFrom (r : Regex α) (replacement : List α) : Nat → Option α → List α → List α
  | _, _, [] => []
  | skip + 1, _, c :: rest => replaceFrom r replacement skip (some c) rest
  | 0, before, c :: rest =>
      match r.matchLength before (c :: rest) with
      | some (length + 1) => replacement ++ replaceFrom r replacement length (some c) rest
      | _ => c :: replaceFrom r replacement 0 (some c) rest

/-- Replace every match of `r` in a text. -/
def replaceAll (r : Regex α) (replacement text : List α) : List α :=
  r.replaceFrom replacement 0 none text

/-- `r` matches exactly `read`, between `before` and `after`. -/
def Matches : Regex α → Option α → List α → List α → Prop
  | .eps, _, read, _ => read = []
  | .sat p, _, read, _ => ∃ c, read = [c] ∧ p c = true
  | .boundary word, before, read, after =>
      read = [] ∧ wordSide word before ≠ wordSide word after.head?
  | .seq first second, before, read, after =>
      ∃ left right, read = left ++ right ∧ Matches first before left (right ++ after) ∧
        Matches second (advance before left) right after
  | .alt first second, before, read, after =>
      Matches first before read after ∨ Matches second before read after
  | .many p, _, read, _ => ∀ c ∈ read, p c = true

@[simp] theorem advance_nil (before : Option α) : advance before [] = before := rfl

@[simp] theorem advance_cons (before : Option α) (c : α) (read : List α) :
    advance before (c :: read) = advance (some c) read := rfl

theorem advance_append (before : Option α) (left right : List α) :
    advance before (left ++ right) = advance (advance before left) right := by
  induction left generalizing before with
  | nil => rfl
  | cons c left ih => exact ih (some c)

@[simp] theorem advance_concat (before : Option α) (left : List α) (c : α) :
    advance before (left ++ [c]) = some c := by
  rw [advance_append]
  rfl

/-! ### Soundness and completeness of `ends` -/

theorem mem_manyEnds {p : α → Bool} {before : Option α} {text : List α} {e : Option α × List α} :
    e ∈ manyEnds p before text ↔
      ∃ read, text = read ++ e.2 ∧ e.1 = advance before read ∧ ∀ c ∈ read, p c = true := by
  induction text generalizing before with
  | nil =>
      constructor
      · intro member
        obtain rfl := List.mem_singleton.mp member
        exact ⟨[], rfl, rfl, by simp⟩
      · rintro ⟨read, split, context, _⟩
        obtain ⟨rfl, rest⟩ := List.append_eq_nil_iff.mp split.symm
        exact List.mem_singleton.mpr (Prod.ext context rest)
  | cons c text ih =>
      by_cases hit : p c = true
      · rw [manyEnds, if_pos hit, List.mem_append, ih, List.mem_singleton]
        constructor
        · rintro (⟨read, split, context, all⟩ | rfl)
          · exact ⟨c :: read, by rw [split]; rfl, context, by simpa using ⟨hit, all⟩⟩
          · exact ⟨[], rfl, rfl, by simp⟩
        · rintro ⟨read, split, context, all⟩
          cases read with
          | nil => exact Or.inr (Prod.ext context split.symm)
          | cons d read =>
              obtain ⟨rfl, tail⟩ := List.cons_eq_cons.mp split
              exact Or.inl ⟨read, tail, context, fun x hx => all x (List.mem_cons_of_mem _ hx)⟩
      · rw [manyEnds, if_neg hit, List.mem_singleton]
        constructor
        · rintro rfl
          exact ⟨[], rfl, rfl, by simp⟩
        · rintro ⟨read, split, context, all⟩
          cases read with
          | nil => exact Prod.ext context split.symm
          | cons d read =>
              obtain ⟨rfl, -⟩ := List.cons_eq_cons.mp split
              exact absurd (all c (by simp)) hit

/-- The ends a backtracking matcher enumerates are exactly those of the declarative reading. -/
theorem mem_ends {r : Regex α} {before : Option α} {text : List α} {e : Option α × List α} :
    e ∈ r.ends before text ↔
      ∃ read, text = read ++ e.2 ∧ e.1 = advance before read ∧ r.Matches before read e.2 := by
  induction r generalizing before text e with
  | eps =>
      constructor
      · intro member
        obtain rfl := List.mem_singleton.mp member
        exact ⟨[], rfl, rfl, rfl⟩
      · rintro ⟨read, split, context, rfl⟩
        exact List.mem_singleton.mpr (Prod.ext context split.symm)
  | sat p =>
      cases text with
      | nil =>
          simp only [ends, List.not_mem_nil, false_iff]
          rintro ⟨read, split, -, c, rfl, -⟩
          simp at split
      | cons c text =>
          simp only [ends]
          split
          · next hit =>
              rw [List.mem_singleton]
              constructor
              · rintro rfl
                exact ⟨[c], rfl, rfl, c, rfl, hit⟩
              · rintro ⟨read, split, context, d, rfl, -⟩
                obtain ⟨rfl, tail⟩ := List.cons_eq_cons.mp split
                exact Prod.ext context tail.symm
          · next miss =>
              simp only [List.not_mem_nil, false_iff]
              rintro ⟨read, split, -, d, rfl, hit⟩
              obtain ⟨rfl, -⟩ := List.cons_eq_cons.mp split
              exact miss hit
  | boundary word =>
      simp only [ends, Matches]
      split
      · next sides =>
          rw [List.mem_singleton]
          constructor
          · rintro rfl
            exact ⟨[], rfl, rfl, rfl, by simpa using sides⟩
          · rintro ⟨read, split, context, rfl, -⟩
            exact Prod.ext context split.symm
      · next sides =>
          simp only [List.not_mem_nil, false_iff]
          rintro ⟨read, split, -, rfl, differ⟩
          rw [List.nil_append] at split
          subst split
          exact sides (by simpa using differ)
  | seq first second ihFirst ihSecond =>
      simp only [ends, List.mem_flatMap, Matches]
      constructor
      · rintro ⟨middle, hfirst, hsecond⟩
        obtain ⟨left, split, context, matched⟩ := ihFirst.mp hfirst
        obtain ⟨right, split', context', matched'⟩ := ihSecond.mp hsecond
        refine ⟨left ++ right, by rw [split, split', List.append_assoc], ?_, left, right, rfl, ?_, ?_⟩
        · rw [context', context, advance_append]
        · rw [← split']; exact matched
        · rw [← context]; exact matched'
      · rintro ⟨read, split, context, left, right, rfl, matched, matched'⟩
        refine ⟨(advance before left, right ++ e.2), ihFirst.mpr ?_, ihSecond.mpr ?_⟩
        · exact ⟨left, by rw [split, List.append_assoc], rfl, matched⟩
        · exact ⟨right, rfl, by rw [context, advance_append], matched'⟩
  | alt first second ihFirst ihSecond =>
      simp only [ends, List.mem_append, ihFirst, ihSecond, Matches]
      constructor
      · rintro (⟨read, split, context, matched⟩ | ⟨read, split, context, matched⟩)
        · exact ⟨read, split, context, Or.inl matched⟩
        · exact ⟨read, split, context, Or.inr matched⟩
      · rintro ⟨read, split, context, matched | matched⟩
        · exact Or.inl ⟨read, split, context, matched⟩
        · exact Or.inr ⟨read, split, context, matched⟩
  | many p => exact mem_manyEnds

/-- `r` matches somewhere at this position exactly when it has an end there. -/
theorem ends_ne_nil_iff {r : Regex α} {before : Option α} {text : List α} :
    r.ends before text ≠ [] ↔
      ∃ read after, text = read ++ after ∧ r.Matches before read after := by
  constructor
  · intro nonempty
    obtain ⟨e, member⟩ := List.exists_mem_of_ne_nil _ nonempty
    obtain ⟨read, split, -, matched⟩ := mem_ends.mp member
    exact ⟨read, e.2, split, matched⟩
  · rintro ⟨read, after, split, matched⟩
    have member : (advance before read, after) ∈ r.ends before text :=
      mem_ends.mpr ⟨read, split, rfl, matched⟩
    exact List.ne_nil_of_mem member

/-! ### Expressions that look only at what they read

A boundary reads the symbol after the position, so a match that ends in one depends on the text behind
it. The expressions used for searching have at most a leading boundary, whose right-hand side is then
the first symbol of the match itself. -/

/-- No boundary occurs in the expression. -/
def BoundaryFree : Regex α → Prop
  | .boundary _ => False
  | .seq first second => BoundaryFree first ∧ BoundaryFree second
  | .alt first second => BoundaryFree first ∧ BoundaryFree second
  | _ => True

instance decidableBoundaryFree : (r : Regex α) → Decidable r.BoundaryFree
  | .boundary _ => isFalse id
  | .seq first second =>
      @instDecidableAnd _ _ (decidableBoundaryFree first) (decidableBoundaryFree second)
  | .alt first second =>
      @instDecidableAnd _ _ (decidableBoundaryFree first) (decidableBoundaryFree second)
  | .eps => isTrue trivial
  | .sat _ => isTrue trivial
  | .many _ => isTrue trivial

/-- Matches of a boundary-free expression do not depend on their surroundings. -/
theorem Matches.transfer {r : Regex α} (free : r.BoundaryFree) {before before' : Option α}
    {read after after' : List α} (matched : r.Matches before read after) :
    r.Matches before' read after' := by
  induction r generalizing before before' read after after' with
  | eps => exact matched
  | sat p => exact matched
  | boundary word => exact free.elim
  | seq first second ihFirst ihSecond =>
      obtain ⟨left, right, rfl, one, two⟩ := matched
      exact ⟨left, right, rfl, ihFirst free.1 one, ihSecond free.2 two⟩
  | alt first second ihFirst ihSecond =>
      rcases matched with one | two
      · exact Or.inl (ihFirst free.1 one)
      · exact Or.inr (ihSecond free.2 two)
  | many p => exact matched

/-- The language of a boundary-free expression. -/
def Reads (r : Regex α) (read : List α) : Prop :=
  r.Matches none read []

/-- Behind `text` lies `rest`: the ends inside `text` are found whether or not `rest` is there. -/
def EndsLocally (r : Regex α) : Prop :=
  ∀ (before : Option α) (text rest : List α), text ≠ [] →
    (r.ends before (text ++ rest)).filter (fun e => decide (rest.length ≤ e.2.length)) =
      (r.ends before text).map fun e => (e.1, e.2 ++ rest)

/-- The expression ends in the repetition `[p]*`. -/
inductive EndsGreedily (p : α → Bool) : Regex α → Prop where
  | many : EndsGreedily p (.many p)
  | seq {first second : Regex α} : EndsGreedily p second → EndsGreedily p (.seq first second)

private theorem ends_length_le {r : Regex α} {before : Option α} {text : List α}
    {e : Option α × List α} (member : e ∈ r.ends before text) : e.2.length ≤ text.length := by
  obtain ⟨read, split, -, -⟩ := mem_ends.mp member
  have := congrArg List.length split
  rw [List.length_append] at this
  omega

private theorem filter_manyEnds (p : α → Bool) (before : Option α) (text rest : List α) :
    (manyEnds p before (text ++ rest)).filter (fun e => decide (rest.length ≤ e.2.length)) =
      (manyEnds p before text).map fun e => (e.1, e.2 ++ rest) := by
  induction text generalizing before with
  | nil =>
      cases rest with
      | nil => rfl
      | cons c rest =>
          simp only [List.nil_append, manyEnds, List.map_cons, List.map_nil]
          split
          · have short : ∀ e ∈ manyEnds p (some c) rest, ¬ (c :: rest).length ≤ e.2.length := by
              intro e member
              have := ends_length_le (r := .many p) member
              simp only [List.length_cons]
              omega
            rw [List.filter_append, List.filter_eq_nil_iff.mpr (by simpa using short)]
            simp
          · simp
  | cons c text ih =>
      have here : rest.length ≤ (c :: (text ++ rest)).length := by
        simp only [List.length_cons, List.length_append]
        omega
      simp only [List.cons_append, manyEnds]
      split
      · rw [List.filter_append, ih, List.filter_cons_of_pos (by simpa using here)]
        simp
      · rw [List.filter_cons_of_pos (by simpa using here)]
        simp

private theorem flatMap_filter {β γ : Type u} (keep : β → Bool) (f : β → List γ) (xs : List β) :
    (xs.filter keep).flatMap f = xs.flatMap fun x => if keep x then f x else [] := by
  induction xs with
  | nil => rfl
  | cons x xs ih =>
      rw [List.filter_cons, List.flatMap_cons]
      split
      · rw [List.flatMap_cons, ih]
      · rw [ih, List.nil_append]

/-- A boundary-free expression finds its ends locally, also at the end of the text. -/
theorem filter_ends_of_boundaryFree {r : Regex α} (free : r.BoundaryFree) (before : Option α)
    (text rest : List α) :
    (r.ends before (text ++ rest)).filter (fun e => decide (rest.length ≤ e.2.length)) =
      (r.ends before text).map fun e => (e.1, e.2 ++ rest) := by
  induction r generalizing before text with
  | eps => simp [ends]
  | sat p =>
      cases text with
      | nil =>
          cases rest with
          | nil => rfl
          | cons c rest => simp only [List.nil_append, ends]; split <;> simp
      | cons c text => simp only [List.cons_append, ends]; split <;> simp
  | boundary word => exact free.elim
  | seq first second ihFirst ihSecond =>
      -- an end of `second` inside `text` comes from an end of `first` inside `text`
      have inner : ∀ position ∈ first.ends before (text ++ rest),
          (second.ends position.1 position.2).filter
              (fun e => decide (rest.length ≤ e.2.length)) =
            if decide (rest.length ≤ position.2.length) then
              (second.ends position.1 position.2).filter
                (fun e => decide (rest.length ≤ e.2.length))
            else [] := by
        intro position _
        split
        · rfl
        · next short =>
            refine List.filter_eq_nil_iff.mpr fun e member => ?_
            have := ends_length_le member
            simp only [decide_eq_true_eq] at short ⊢
            omega
      calc ((first.seq second).ends before (text ++ rest)).filter
              (fun e => decide (rest.length ≤ e.2.length))
          = ((first.ends before (text ++ rest)).filter
              (fun e => decide (rest.length ≤ e.2.length))).flatMap fun position =>
                (second.ends position.1 position.2).filter
                  (fun e => decide (rest.length ≤ e.2.length)) := by
            rw [ends, List.filter_flatMap, flatMap_filter]
            exact List.flatMap_congr inner
        _ = (first.ends before text).flatMap fun position =>
              (second.ends position.1 position.2).map fun e => (e.1, e.2 ++ rest) := by
            rw [ihFirst free.1, List.flatMap_map]
            exact List.flatMap_congr fun position _ => ihSecond free.2 position.1 position.2
        _ = ((first.seq second).ends before text).map fun e => (e.1, e.2 ++ rest) := by
            rw [ends, List.map_flatMap]
  | alt first second ihFirst ihSecond =>
      simp only [ends, List.filter_append, List.map_append, ihFirst free.1, ihSecond free.2]
  | many p => exact filter_manyEnds p before text rest

theorem BoundaryFree.endsLocally {r : Regex α} (free : r.BoundaryFree) : r.EndsLocally :=
  fun before text rest _ => filter_ends_of_boundaryFree free before text rest

theorem ends_boundary_seq {word : α → Bool} {before : Option α} {text : List α}
    (sides : wordSide word before ≠ wordSide word text.head?) (r : Regex α) :
    (Regex.seq (.boundary word) r).ends before text = r.ends before text := by
  simp [ends, sides]

theorem ends_boundary_seq_of_eq {word : α → Bool} {before : Option α} {text : List α}
    (sides : wordSide word before = wordSide word text.head?) (r : Regex α) :
    (Regex.seq (.boundary word) r).ends before text = [] := by
  simp [ends, sides]

/-- A leading boundary keeps an expression local. -/
theorem BoundaryFree.endsLocally_boundary {r : Regex α} (free : r.BoundaryFree)
    (word : α → Bool) : (Regex.seq (.boundary word) r).EndsLocally := by
  intro before text rest nonempty
  have same : (text ++ rest).head? = text.head? := List.head?_append_of_ne_nil _ nonempty
  by_cases sides : wordSide word before = wordSide word text.head?
  · rw [ends_boundary_seq_of_eq sides, ends_boundary_seq_of_eq (by rw [same, sides])]
    rfl
  · rw [ends_boundary_seq sides, ends_boundary_seq (by rw [same]; exact sides)]
    exact filter_ends_of_boundaryFree free before text rest

/-! ### Searching and replacing -/

/-- Every match of the expression reads at least one symbol. -/
def Consuming (r : Regex α) : Prop :=
  ∀ before read after, r.Matches before read after → read ≠ []

theorem matchLength_eq_none_iff {r : Regex α} {before : Option α} {text : List α} :
    r.matchLength before text = none ↔ r.ends before text = [] := by
  simp [matchLength]

/-- A reported length belongs to a match. -/
theorem matchLength_eq_some {r : Regex α} {before : Option α} {text : List α} {length : Nat}
    (found : r.matchLength before text = some length) :
    ∃ read after, text = read ++ after ∧ read.length = length ∧
      r.Matches before read after ∧ (r.ends before text).head? = some (advance before read, after) := by
  obtain ⟨e, head, rfl⟩ := Option.map_eq_some_iff.mp found
  obtain ⟨read, split, context, matched⟩ := mem_ends.mp (List.mem_of_head? head)
  refine ⟨read, e.2, split, ?_, matched, ?_⟩
  · rw [split, List.length_append]
    omega
  · rw [head, ← context]

/-- A consuming expression never reports an empty match. -/
theorem Consuming.matchLength_pos {r : Regex α} (consuming : r.Consuming) {before : Option α}
    {text : List α} {length : Nat} (found : r.matchLength before text = some length) :
    0 < length := by
  obtain ⟨read, after, -, rfl, matched, -⟩ := matchLength_eq_some found
  exact List.length_pos_iff.mpr (consuming before read after matched)

/-- No match starts in `text` when `rest` follows it. -/
def Silent (r : Regex α) (before : Option α) (text rest : List α) : Prop :=
  ∀ left right, text = left ++ right → right ≠ [] →
    r.ends (advance before left) (right ++ rest) = []

/-- Every match that starts in `text` stays in `text` when `rest` follows it. -/
def Contained (r : Regex α) (before : Option α) (text rest : List α) : Prop :=
  ∀ left right, text = left ++ right → right ≠ [] → ∀ read after, right ++ rest = read ++ after →
    r.Matches (advance before left) read after → read.length ≤ right.length

theorem Silent.contained {r : Regex α} {before : Option α} {text rest : List α}
    (silent : r.Silent before text rest) : r.Contained before text rest := by
  intro left right split nonempty read after follows matched
  exact absurd (silent left right split nonempty) (ends_ne_nil_iff.mpr ⟨read, after, follows, matched⟩)

@[simp] theorem silent_nil (r : Regex α) (before : Option α) (rest : List α) :
    r.Silent before [] rest := by
  intro left right split nonempty
  exact absurd (List.append_eq_nil_iff.mp split.symm).2 nonempty

theorem silent_cons_iff {r : Regex α} {before : Option α} {c : α} {text rest : List α} :
    r.Silent before (c :: text) rest ↔
      r.ends before (c :: (text ++ rest)) = [] ∧ r.Silent (some c) text rest := by
  constructor
  · intro silent
    refine ⟨silent [] (c :: text) rfl (by simp), fun left right split nonempty => ?_⟩
    exact silent (c :: left) right (by rw [split, List.cons_append]) nonempty
  · rintro ⟨here, silent⟩ left right split nonempty
    cases left with
    | nil =>
        rw [List.nil_append] at split
        rw [← split]
        exact here
    | cons d left =>
        obtain ⟨rfl, tail⟩ := List.cons_eq_cons.mp (split.trans (List.cons_append ..))
        exact silent left right tail nonempty

theorem Silent.tail {r : Regex α} {before : Option α} {c : α} {text rest : List α}
    (silent : r.Silent before (c :: text) rest) : r.Silent (some c) text rest :=
  (silent_cons_iff.mp silent).2

theorem Contained.drop {r : Regex α} {before : Option α} {left text rest : List α}
    (contained : r.Contained before (left ++ text) rest) :
    r.Contained (advance before left) text rest := by
  intro left' right split nonempty read after follows matched
  rw [← advance_append] at matched
  exact contained (left ++ left') right (by rw [split, List.append_assoc]) nonempty read after
    follows matched

theorem Contained.drop_head {r : Regex α} {before : Option α} {c : α} {text rest : List α}
    (contained : r.Contained before (c :: text) rest) : r.Contained (some c) text rest := by
  rw [← List.singleton_append] at contained
  exact contained.drop

/-- Text in which no match starts is copied. -/
theorem replaceFrom_of_silent {r : Regex α} {replacement : List α} {before : Option α}
    {text rest : List α} (silent : r.Silent before text rest) :
    r.replaceFrom replacement 0 before (text ++ rest) =
      text ++ r.replaceFrom replacement 0 (advance before text) rest := by
  induction text generalizing before with
  | nil => rfl
  | cons c text ih =>
      have here : r.matchLength before (c :: (text ++ rest)) = none :=
        matchLength_eq_none_iff.mpr (silent [] (c :: text) rfl (by simp))
      rw [List.cons_append, replaceFrom, here]
      simp only
      rw [ih silent.tail]
      rfl

/-- Symbols of a match already found are dropped. -/
theorem replaceFrom_skip {r : Regex α} {replacement : List α} (before : Option α)
    (read rest : List α) :
    r.replaceFrom replacement read.length before (read ++ rest) =
      r.replaceFrom replacement 0 (advance before read) rest := by
  induction read generalizing before with
  | nil => rfl
  | cons c read ih => exact ih (some c)

/-- Inside text that contains its matches, the report does not depend on what follows. -/
theorem Contained.matchLength_eq {r : Regex α} (locally : r.EndsLocally) {before : Option α}
    {text rest : List α} (contained : r.Contained before text rest) (nonempty : text ≠ []) :
    r.matchLength before (text ++ rest) = r.matchLength before text := by
  have all : (r.ends before (text ++ rest)).filter
      (fun e => decide (rest.length ≤ e.2.length)) = r.ends before (text ++ rest) := by
    refine List.filter_eq_self.mpr fun e member => ?_
    obtain ⟨read, split, -, matched⟩ := mem_ends.mp member
    have bound := contained [] text rfl nonempty read e.2 split matched
    have := congrArg List.length split
    simp only [List.length_append, decide_eq_true_eq] at this ⊢
    omega
  have local' := locally before text rest nonempty
  rw [all] at local'
  rw [matchLength, matchLength, local', List.head?_map, Option.map_map]
  refine congrArg (fun f => Option.map f _) (funext fun e => ?_)
  simp only [Function.comp_apply, List.length_append]
  omega

/-- Replacement distributes over a cut that no match crosses. -/
theorem replaceFrom_append {r : Regex α} (locally : r.EndsLocally) {replacement : List α}
    {before : Option α} {text rest : List α} (contained : r.Contained before text rest) :
    r.replaceFrom replacement 0 before (text ++ rest) =
      r.replaceFrom replacement 0 before text ++
        r.replaceFrom replacement 0 (advance before text) rest := by
  induction hlength : text.length using Nat.strongRecOn generalizing before text with
  | _ size ih =>
      cases text with
      | nil => rfl
      | cons c text =>
          have same := contained.matchLength_eq locally (by simp)
          have step : r.replaceFrom replacement 0 (some c) (text ++ rest) =
              r.replaceFrom replacement 0 (some c) text ++
                r.replaceFrom replacement 0 (advance (some c) text) rest :=
            ih text.length (by rw [← hlength]; simp)
              (contained.drop_head) rfl
          rw [List.cons_append] at same
          rw [List.cons_append, replaceFrom, replaceFrom, same, advance_cons]
          match found : r.matchLength before (c :: text) with
          | none => simp only [step, List.cons_append]
          | some 0 => simp only [step, List.cons_append]
          | some (length + 1) =>
              obtain ⟨read, after, split, size', -, -⟩ := matchLength_eq_some found
              cases read with
              | nil => simp at size'
              | cons d read =>
                  rw [List.cons_append] at split
                  obtain ⟨rfl, tail⟩ := List.cons_eq_cons.mp split
                  obtain rfl : read.length = length := by simpa using size'
                  have inner : r.replaceFrom replacement 0 (advance (some c) read) (after ++ rest) =
                      r.replaceFrom replacement 0 (advance (some c) read) after ++
                        r.replaceFrom replacement 0 (advance (advance (some c) read) after) rest := by
                    refine ih after.length ?_ ?_ rfl
                    · rw [← hlength, tail]
                      simp only [List.length_cons, List.length_append]
                      omega
                    · have whole : r.Contained before ((c :: read) ++ after) rest := by
                        rw [List.cons_append, ← tail]
                        exact contained
                      exact whole.drop
                  simp only [tail, List.append_assoc, replaceFrom_skip, inner, advance_append]

/-- Offset of the first position at which `r` matches. -/
def firstFrom (r : Regex α) : Option α → List α → Option Nat
  | _, [] => none
  | before, c :: rest =>
      if (r.ends before (c :: rest)).isEmpty then (firstFrom r (some c) rest).map (· + 1) else some 0

/-- The matches found lie inside the text searched. -/
theorem mem_findFrom_lt {r : Regex α} {skip : Nat} {before : Option α} {offset : Nat}
    {text : List α} {found : Nat × Nat} (member : found ∈ r.findFrom skip before offset text) :
    found.1 < offset + text.length := by
  induction text generalizing skip before offset with
  | nil => simp [findFrom] at member
  | cons c text ih =>
      have later : ∀ skip', found ∈ r.findFrom skip' (some c) (offset + 1) text →
          found.1 < offset + (c :: text).length := by
        intro skip' member'
        have := ih member'
        simp only [List.length_cons]
        omega
      cases skip with
      | succ skip => exact later skip member
      | zero =>
          rw [findFrom] at member
          split at member
          · rcases List.mem_cons.mp member with rfl | member
            · simp
            · exact later _ member
          · exact later 0 member

/-- The search starts with the first position at which the expression matches. -/
theorem head?_findFrom {r : Regex α} (consuming : r.Consuming) (before : Option α) (offset : Nat)
    (text : List α) :
    (r.findFrom 0 before offset text).head?.map Prod.fst =
      (r.firstFrom before text).map (offset + ·) := by
  induction text generalizing before offset with
  | nil => rfl
  | cons c text ih =>
      rw [findFrom, firstFrom]
      match found : r.matchLength before (c :: text) with
      | none =>
          have none' : r.ends before (c :: text) = [] := matchLength_eq_none_iff.mp found
          simp only [none', List.isEmpty_nil, if_true, ih, Option.map_map]
          refine congrArg (fun f => Option.map f _) (funext fun i => ?_)
          simp only [Function.comp_apply]
          omega
      | some 0 => exact absurd (consuming.matchLength_pos found) (by simp)
      | some (length + 1) =>
          have some' : r.ends before (c :: text) ≠ [] := by
            intro none'
            rw [matchLength_eq_none_iff.mpr none'] at found
            exact Option.some_ne_none _ found.symm
          simp [some']

theorem firstFrom_eq_none_iff {r : Regex α} {before : Option α} {text : List α} :
    r.firstFrom before text = none ↔ r.Silent before text [] := by
  induction text generalizing before with
  | nil => simp [firstFrom]
  | cons c text ih =>
      rw [firstFrom, silent_cons_iff, List.append_nil]
      by_cases here : r.ends before (c :: text) = []
      · simp [here, ih]
      · simp [here]

/-- Where the first match starts. -/
theorem firstFrom_eq_some_iff {r : Regex α} {before : Option α} {text : List α} {offset : Nat} :
    r.firstFrom before text = some offset ↔
      ∃ left right, text = left ++ right ∧ left.length = offset ∧ right ≠ [] ∧
        r.ends (advance before left) right ≠ [] ∧ r.Silent before left right := by
  induction text generalizing before offset with
  | nil =>
      constructor
      · intro found
        exact absurd found (by simp [firstFrom])
      · rintro ⟨left, right, split, -, nonempty, -, -⟩
        exact absurd (List.append_eq_nil_iff.mp split.symm).2 nonempty
  | cons c text ih =>
      rw [firstFrom]
      by_cases here : r.ends before (c :: text) = []
      · simp only [here, List.isEmpty_nil, if_true, Option.map_eq_some_iff]
        constructor
        · rintro ⟨offset', found, rfl⟩
          obtain ⟨left, right, rfl, rfl, nonempty, matched, silent⟩ := ih.mp found
          exact ⟨c :: left, right, rfl, rfl, nonempty, matched, silent_cons_iff.mpr ⟨here, silent⟩⟩
        · rintro ⟨left, right, split, rfl, nonempty, matched, silent⟩
          cases left with
          | nil =>
              rw [List.nil_append] at split
              subst split
              exact absurd here matched
          | cons d left =>
              obtain ⟨rfl, tail⟩ := List.cons_eq_cons.mp (split.trans (List.cons_append ..))
              exact ⟨left.length, ih.mpr ⟨left, right, tail, rfl, nonempty, matched, silent.tail⟩, rfl⟩
      · simp only [List.isEmpty_iff, here, if_false, Option.some.injEq]
        constructor
        · rintro rfl
          exact ⟨[], c :: text, rfl, rfl, by simp, here, silent_nil _ _ _⟩
        · rintro ⟨left, right, split, rfl, -, -, silent⟩
          cases left with
          | nil => rfl
          | cons d left =>
              rw [split] at here
              exact absurd (silent [] (d :: left) rfl (by simp)) here

/-! ### Greedy tails -/

private theorem head?_flatMap {β γ : Type u} {f : β → List γ} {xs : List β} {y : γ}
    (head : (xs.flatMap f).head? = some y) : ∃ x ∈ xs, (f x).head? = some y := by
  induction xs with
  | nil => simp at head
  | cons x xs ih =>
      rw [List.flatMap_cons] at head
      cases hx : f x with
      | nil =>
          rw [hx, List.nil_append] at head
          obtain ⟨x', member, head'⟩ := ih head
          exact ⟨x', List.mem_cons_of_mem _ member, head'⟩
      | cons z zs =>
          rw [hx] at head
          exact ⟨x, by simp, by rw [hx]; exact head⟩

private theorem head?_manyEnds (p : α → Bool) (before : Option α) (text : List α) :
    ∃ e, (manyEnds p before text).head? = some e ∧ e.2.head?.any p = false := by
  induction text generalizing before with
  | nil => exact ⟨(before, []), rfl, rfl⟩
  | cons c text ih =>
      by_cases hit : p c = true
      · obtain ⟨e, head, stop⟩ := ih (some c)
        refine ⟨e, ?_, stop⟩
        rw [manyEnds, if_pos hit]
        cases ends : manyEnds p (some c) text with
        | nil => rw [ends] at head; simp at head
        | cons e' es => rw [ends] at head; exact head
      · refine ⟨(before, c :: text), ?_, ?_⟩
        · rw [manyEnds, if_neg hit]
          rfl
        · simpa using hit

/-- Behind a reported match with a greedy tail stands no symbol of its class. -/
theorem EndsGreedily.stops {p : α → Bool} {r : Regex α} (greedy : r.EndsGreedily p)
    {before : Option α} {text : List α} {e : Option α × List α}
    (head : (r.ends before text).head? = some e) : e.2.head?.any p = false := by
  induction greedy generalizing before text e with
  | many =>
      obtain ⟨e', head', stop⟩ := head?_manyEnds p before text
      rw [ends, head'] at head
      obtain rfl := Option.some.inj head
      exact stop
  | seq _ ih =>
      obtain ⟨position, -, head'⟩ := head?_flatMap head
      exact ih head'

/-! ### Expressions of bounded width -/

/-- No repetition occurs in the expression. -/
def RepetitionFree : Regex α → Prop
  | .many _ => False
  | .seq first second => RepetitionFree first ∧ RepetitionFree second
  | .alt first second => RepetitionFree first ∧ RepetitionFree second
  | _ => True

instance decidableRepetitionFree : (r : Regex α) → Decidable r.RepetitionFree
  | .many _ => isFalse id
  | .seq first second =>
      @instDecidableAnd _ _ (decidableRepetitionFree first) (decidableRepetitionFree second)
  | .alt first second =>
      @instDecidableAnd _ _ (decidableRepetitionFree first) (decidableRepetitionFree second)
  | .eps => isTrue trivial
  | .sat _ => isTrue trivial
  | .boundary _ => isTrue trivial

/-- The largest number of symbols that an expression without repetitions reads. -/
def width : Regex α → Nat
  | .sat _ => 1
  | .seq first second => width first + width second
  | .alt first second => max (width first) (width second)
  | _ => 0

theorem Matches.length_le_width {r : Regex α} (free : r.RepetitionFree) {before : Option α} {read after : List α}
    (matched : r.Matches before read after) : read.length ≤ r.width := by
  induction r generalizing before read after with
  | eps => simp [show read = [] from matched]
  | sat p =>
      obtain ⟨c, rfl, -⟩ := matched
      exact Nat.le_refl 1
  | boundary word => simp [matched.1]
  | seq first second ihFirst ihSecond =>
      obtain ⟨left, right, rfl, one, two⟩ := matched
      have bounds := Nat.add_le_add (ihFirst free.1 one) (ihSecond free.2 two)
      simpa [width] using bounds
  | alt first second ihFirst ihSecond =>
      rcases matched with one | two
      · exact Nat.le_trans (ihFirst free.1 one) (Nat.le_max_left _ _)
      · exact Nat.le_trans (ihSecond free.2 two) (Nat.le_max_right _ _)
  | many p => exact free.elim

/-- The least number of symbols that an expression reads. -/
def least : Regex α → Nat
  | .sat _ => 1
  | .seq first second => least first + least second
  | .alt first second => min (least first) (least second)
  | _ => 0

theorem Matches.least_le_length {r : Regex α} {before : Option α} {read after : List α}
    (matched : r.Matches before read after) : r.least ≤ read.length := by
  induction r generalizing before read after with
  | eps => exact Nat.zero_le _
  | sat p =>
      obtain ⟨c, rfl, -⟩ := matched
      exact Nat.le_refl 1
  | boundary word => exact Nat.zero_le _
  | seq first second ihFirst ihSecond =>
      obtain ⟨left, right, rfl, one, two⟩ := matched
      have bounds := Nat.add_le_add (ihFirst one) (ihSecond two)
      simpa [least] using bounds
  | alt first second ihFirst ihSecond =>
      rcases matched with one | two
      · exact Nat.le_trans (Nat.min_le_left _ _) (ihFirst one)
      · exact Nat.le_trans (Nat.min_le_right _ _) (ihSecond two)
  | many p => exact Nat.zero_le _

/-- Of the text behind it, a match sees the first symbol only. -/
theorem Matches.of_head? {r : Regex α} {before : Option α} {read after after' : List α}
    (matched : r.Matches before read after) (same : after.head? = after'.head?) :
    r.Matches before read after' := by
  induction r generalizing before read after after' with
  | eps => exact matched
  | sat p => exact matched
  | boundary word => exact ⟨matched.1, same ▸ matched.2⟩
  | seq first second ihFirst ihSecond =>
      obtain ⟨left, right, rfl, one, two⟩ := matched
      exact ⟨left, right, rfl, ihFirst one (by simp [same]), ihSecond two same⟩
  | alt first second ihFirst ihSecond =>
      rcases matched with one | two
      · exact Or.inl (ihFirst one same)
      · exact Or.inr (ihSecond two same)
  | many p => exact matched

/-- Whether an expression matches at a position is settled by one symbol more than its width. -/
theorem ends_append_eq_nil_iff {r : Regex α} (free : r.RepetitionFree) (before : Option α) {text : List α}
    (more : List α) (long : r.width < text.length) :
    r.ends before (text ++ more) = [] ↔ r.ends before text = [] := by
  have nonempty : ∀ {after : List α}, after ≠ [] → after.head? = (after ++ more).head? := by
    intro after some
    simp [List.head?_append, List.head?_eq_some_head some]
  rw [← not_iff_not, ← ne_eq, ← ne_eq, ends_ne_nil_iff, ends_ne_nil_iff]
  constructor
  · intro ⟨read, after, split, matched⟩
    have short : read.length < text.length := Nat.lt_of_le_of_lt (matched.length_le_width free) long
    obtain ⟨left, rfl, rfl⟩ : ∃ left, text = read ++ left ∧ after = left ++ more := by
      obtain ⟨left, rfl⟩ := List.prefix_of_prefix_length_le ⟨after, split.symm⟩ ⟨more, rfl⟩ (Nat.le_of_lt short)
      rw [List.append_assoc] at split
      exact ⟨left, rfl, (List.append_cancel_left split).symm⟩
    have some : left ≠ [] := by
      intro empty
      simp [empty] at short
    exact ⟨read, left, rfl, matched.of_head? (nonempty some).symm⟩
  · intro ⟨read, after, split, matched⟩
    subst split
    have some : after ≠ [] := by
      intro empty
      have := matched.length_le_width free
      simp only [empty, List.append_nil] at long
      omega
    exact ⟨read, after ++ more, List.append_assoc .., matched.of_head? (nonempty some)⟩

/-! ### Lists of expressions -/

theorem matches_seqs_cons {r : Regex α} {rs : List (Regex α)} {before : Option α} {read after : List α} :
    (seqs (r :: rs)).Matches before read after ↔
      ∃ left right, read = left ++ right ∧ r.Matches before left (right ++ after) ∧
        (seqs rs).Matches (advance before left) right after := by
  cases rs with
  | cons second others => exact Iff.rfl
  | nil =>
      constructor
      · intro matched
        exact ⟨read, [], (List.append_nil read).symm, matched, rfl⟩
      · rintro ⟨left, right, rfl, matched, ended⟩
        obtain rfl : right = [] := ended
        rw [List.append_nil]
        exact matched

theorem matches_alts {rs : List (Regex α)} {before : Option α} {read after : List α} :
    (alts rs).Matches before read after ↔ ∃ r ∈ rs, r.Matches before read after := by
  induction rs with
  | nil => simp [alts, Matches]
  | cons r rs ih =>
      cases rs with
      | nil => simp [alts]
      | cons second others =>
          have split : (alts (r :: second :: others)).Matches before read after ↔
              r.Matches before read after ∨ (alts (second :: others)).Matches before read after := Iff.rfl
          rw [split, ih]
          simp only [List.mem_cons, exists_eq_or_imp]

/-- One class after the other, read by as many symbols. -/
theorem matches_seqs_sat {ps : List (α → Bool)} {before : Option α} {read after : List α} :
    (seqs (ps.map sat)).Matches before read after ↔ List.Forall₂ (fun p c => p c = true) ps read := by
  induction ps generalizing before read with
  | nil =>
      rw [List.forall₂_nil_left_iff]
      exact Iff.rfl
  | cons p ps ih =>
      rw [List.map_cons, matches_seqs_cons, List.forall₂_cons_left_iff]
      constructor
      · rintro ⟨left, right, rfl, ⟨c, rfl, holds⟩, others⟩
        exact ⟨c, right, holds, ih.mp others, rfl⟩
      · rintro ⟨c, right, holds, others, rfl⟩
        exact ⟨[c], right, rfl, ⟨c, rfl, holds⟩, ih.mpr others⟩

/-! ### What replacing writes, and where a search ends -/

/-- Replacing writes symbols of the text and of the replacement only. -/
theorem mem_replaceFrom {r : Regex α} {replacement : List α} {skip : Nat} {before : Option α} {text : List α} {c : α}
    (member : c ∈ r.replaceFrom replacement skip before text) : c ∈ text ∨ c ∈ replacement := by
  induction text generalizing skip before with
  | nil => exact absurd member List.not_mem_nil
  | cons d text ih =>
      have later : ∀ {skip'}, c ∈ r.replaceFrom replacement skip' (some d) text → c ∈ d :: text ∨ c ∈ replacement :=
        fun among => (ih among).imp_left (List.mem_cons_of_mem d)
      cases skip with
      | succ skip => exact later member
      | zero =>
          rw [replaceFrom] at member
          split at member
          · rcases List.mem_append.mp member with written | among
            · exact .inr written
            · exact later among
          · rcases List.mem_cons.mp member with rfl | among
            · exact .inl List.mem_cons_self
            · exact later among

/-- A search that ends inside a text ends there whatever follows, if what follows decides no position. -/
theorem firstFrom_append {r : Regex α} {before : Option α} {text rest : List α}
    (settled : ∀ left right, text = left ++ right → right ≠ [] →
      (r.ends (advance before left) (right ++ rest) = [] ↔ r.ends (advance before left) right = []))
    (found : r.firstFrom before text ≠ none) : r.firstFrom before (text ++ rest) = r.firstFrom before text := by
  induction text generalizing before with
  | nil => exact absurd rfl found
  | cons c text ih =>
      have here := settled [] (c :: text) rfl (List.cons_ne_nil c text)
      simp only [advance_nil, List.cons_append] at here
      rw [List.cons_append, firstFrom, firstFrom]
      by_cases silent : r.ends before (c :: text) = []
      · rw [firstFrom, silent, List.isEmpty_nil, if_pos rfl] at found
        rw [here.mpr silent, silent, List.isEmpty_nil, if_pos rfl, if_pos rfl, ih]
        · intro left right split nonempty
          exact settled (c :: left) right (by rw [split, List.cons_append]) nonempty
        · intro nothing
          exact found (by rw [nothing, Option.map_none])
      · rw [if_neg, if_neg]
        · rwa [List.isEmpty_iff]
        · rwa [List.isEmpty_iff, here]

end Regex

end ExitfyCores
