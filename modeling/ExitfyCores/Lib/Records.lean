/-
Module: ExitfyCores.Lib.Records
Layer: Library
Purpose: Texts that are one record behind the other: a loop that reads records until the text is used up, and the rules
  for two such loops over one text and for a text that was written record by record.
Imports: ExitfyCores.Lib.Raise
Trusted boundary: none
Main exports: Reader, Reader.scan, scan_cons, scan_simulates, scan_rendered, Piece, readPieces, renderPieces,
  Fits, readPieces_render
Open obligations: none
-/
import ExitfyCores.Lib.Raise

namespace ExitfyCores.Records

/-! ### Records -/

/-- Reading the record at the head of a text, which takes at least one symbol. -/
structure Reader (α ε ρ : Type) where
  next : List α → Except ε (ρ × List α)
  shorter : ∀ {text record rest}, next text = .ok (record, rest) → rest.length < text.length

variable {α ε ρ σ τ : Type}

/-- `while offset < len(text)` around reading a record and a step. -/
def Reader.scan (reader : Reader α ε ρ) (step : σ → ρ → Except ε σ) (state : σ) (text : List α) : Except ε σ :=
  if text = [] then .ok state
  else
    match _ : reader.next text with
    | .error error => .error error
    | .ok (record, rest) => do
        let state ← step state record
        reader.scan step state rest
termination_by text.length
decreasing_by exact reader.shorter ‹_›

variable {reader reader' : Reader α ε ρ} {step : σ → ρ → Except ε σ} {step' : τ → ρ → Except ε τ}

@[simp] theorem scan_nil (state : σ) : reader.scan step state [] = .ok state := by
  rw [Reader.scan, if_pos rfl]

theorem scan_error {text : List α} {error : ε} (state : σ) (nonempty : text ≠ [])
    (raised : reader.next text = .error error) : reader.scan step state text = .error error := by
  rw [Reader.scan, if_neg nonempty]
  split
  · rename_i found
    rw [raised] at found
    cases found
    rfl
  · rename_i found
    rw [raised] at found
    cases found

theorem scan_cons {text rest : List α} {record : ρ} (state : σ) (read : reader.next text = .ok (record, rest)) :
    reader.scan step state text = step state record >>= fun next => reader.scan step next rest := by
  have nonempty : text ≠ [] := by
    intro empty
    have shorter := reader.shorter read
    simp [empty] at shorter
  rw [Reader.scan, if_neg nonempty]
  split
  · rename_i found
    rw [read] at found
    cases found
  · rename_i found
    rw [read] at found
    cases found
    rfl

/-- A loop that comes to an end read a record or was at the end. -/
theorem scan_eq_ok {text : List α} {state final : σ} (run : reader.scan step state text = .ok final) :
    (text = [] ∧ final = state) ∨ ∃ record rest next, reader.next text = .ok (record, rest) ∧
      step state record = .ok next ∧ reader.scan step next rest = .ok final := by
  by_cases empty : text = []
  · subst empty
    rw [scan_nil] at run
    exact .inl ⟨rfl, (Except.ok.inj run).symm⟩
  · cases read : reader.next text with
    | error error =>
        rw [scan_error state empty read] at run
        cases run
    | ok found =>
        obtain ⟨record, rest⟩ := found
        rw [scan_cons state read] at run
        obtain ⟨next, stepped, run⟩ := bind_eq_ok run
        exact .inr ⟨record, rest, next, rfl, stepped, run⟩

/-- Where every step of one loop is a step of another that reads the same records, every run is a run of the other. -/
theorem scan_simulates (related : σ → τ → Prop)
    (reads : ∀ text found, reader.next text = .ok found → reader'.next text = .ok found)
    (turn : ∀ text record rest state other next, reader.next text = .ok (record, rest) → related state other →
      step state record = .ok next → ∃ next', step' other record = .ok next' ∧ related next next')
    {text : List α} {state final : σ} {other : τ} (start : related state other)
    (run : reader.scan step state text = .ok final) :
    ∃ final', reader'.scan step' other text = .ok final' ∧ related final final' := by
  induction length : text.length using Nat.strongRecOn generalizing text state other with
  | ind bound ih =>
      rcases scan_eq_ok run with ⟨empty, same⟩ | ⟨record, rest, next, read, stepped, run⟩
      · exact ⟨other, by rw [empty, scan_nil], same ▸ start⟩
      · obtain ⟨next', stepped', held⟩ := turn text record rest state other next read start stepped
        obtain ⟨final', run', held'⟩ := ih rest.length (length ▸ reader.shorter read) held run rfl
        exact ⟨final', by rw [scan_cons other (reads _ _ read), stepped', ok_bind, run'], held'⟩

/-- Of a text that was written record by record, the loop takes a step for each of them. -/
theorem scan_rendered {κ : Type} {render : κ → List α} {record : κ → ρ} {items : List κ}
    (reads : ∀ item ∈ items, ∀ rest, reader.next (render item ++ rest) = .ok (record item, rest)) (state : σ) :
    reader.scan step state (items.flatMap render) = items.foldlM (fun state item => step state (record item)) state := by
  induction items generalizing state with
  | nil => exact scan_nil state
  | cons item rest ih =>
      rw [List.flatMap_cons, scan_cons state (reads item List.mem_cons_self _), List.foldlM_cons]
      congr 1
      funext next
      exact ih (fun other member => reads other (List.mem_cons_of_mem item member)) next

/-! ### Fixed words between runs of a class -/

/-- A part of a line: a fixed word, or a nonempty run of symbols of a class. -/
inductive Piece (α : Type) where
  | word (symbols : List α)
  | run (isSymbol : α → Bool)

/-- Match the pieces at the head of a text: the runs, and what is behind. -/
def readPieces [DecidableEq α] : List (Piece α) → List α → Option (List (List α) × List α)
  | [], text => some ([], text)
  | .word symbols :: pieces, text => do
      let rest ← symbols.isPrefixOf? text
      readPieces pieces rest
  | .run isSymbol :: pieces, text =>
      let run := text.takeWhile isSymbol
      if run = [] then none
      else do
        let (runs, rest) ← readPieces pieces (text.dropWhile isSymbol)
        return (run :: runs, rest)

theorem readPieces_length_le [DecidableEq α] {pieces : List (Piece α)} {text rest : List α} {runs : List (List α)}
    (read : readPieces pieces text = some (runs, rest)) : rest.length ≤ text.length := by
  induction pieces generalizing text runs with
  | nil =>
      cases read
      exact Nat.le_refl _
  | cons piece pieces ih =>
      cases piece with
      | word symbols =>
          obtain ⟨behind, stripped, read⟩ := Option.bind_eq_some_iff.mp read
          have split := List.isPrefixOf?_eq_some_iff_append_eq.mp stripped
          have tail := ih read
          simp only [← split, List.length_append]
          omega
      | run isSymbol =>
          simp only [readPieces] at read
          obtain ⟨_, read⟩ := Option.ite_none_left_eq_some.mp read
          obtain ⟨⟨others, behind⟩, tail, same⟩ := Option.bind_eq_some_iff.mp read
          cases same
          exact Nat.le_trans (ih tail) (List.dropWhile_suffix isSymbol).length_le

/-- Write the pieces with the given runs. -/
def renderPieces : List (Piece α) → List (List α) → List α
  | .word symbols :: pieces, runs => symbols ++ renderPieces pieces runs
  | .run _ :: pieces, run :: runs => run ++ renderPieces pieces runs
  | _, _ => []

/-- The pieces begin with a symbol that is not of the class. -/
def stops (isSymbol : α → Bool) : List (Piece α) → Bool
  | .word (symbol :: _) :: _ => !isSymbol symbol
  | _ => false

/-- Runs of the right classes, each of which ends where the next word begins. -/
def Fits : List (Piece α) → List (List α) → Prop
  | [], runs => runs = []
  | .word _ :: pieces, runs => Fits pieces runs
  | .run isSymbol :: pieces, run :: runs =>
      (run ≠ [] ∧ run.all isSymbol = true) ∧ stops isSymbol pieces = true ∧ Fits pieces runs
  | .run _ :: _, [] => False

theorem takeWhile_stop {isSymbol : α → Bool} {run : List α} {symbol : α} (all : run.all isSymbol = true)
    (stop : isSymbol symbol = false) (rest : List α) :
    (run ++ symbol :: rest).takeWhile isSymbol = run ∧ (run ++ symbol :: rest).dropWhile isSymbol = symbol :: rest := by
  have each : ∀ c ∈ run, isSymbol c = true := List.all_eq_true.mp all
  constructor
  · rw [List.takeWhile_append_of_pos each]
    simp [stop]
  · rw [List.dropWhile_append_of_pos each]
    simp [stop]

/-- What was written is read back. -/
theorem readPieces_render [DecidableEq α] {pieces : List (Piece α)} {runs : List (List α)} (fits : Fits pieces runs)
    (rest : List α) : readPieces pieces (renderPieces pieces runs ++ rest) = some (runs, rest) := by
  induction pieces generalizing runs with
  | nil =>
      have none : runs = [] := fits
      simp [renderPieces, readPieces, none]
  | cons piece pieces ih =>
      cases piece with
      | word symbols =>
          have tail : readPieces pieces (renderPieces pieces runs ++ rest) = some (runs, rest) := ih fits
          have stripped : symbols.isPrefixOf? (symbols ++ (renderPieces pieces runs ++ rest)) =
              some (renderPieces pieces runs ++ rest) := List.isPrefixOf?_eq_some_iff_append_eq.mpr rfl
          simp [renderPieces, readPieces, stripped, tail]
      | run isSymbol =>
          match runs, fits with
          | run :: runs, ⟨⟨nonempty, all⟩, stop, tailFits⟩ =>
              match pieces, stop with
              | .word (symbol :: symbols) :: pieces, stop =>
                  have outside : isSymbol symbol = false := by simpa [stops] using stop
                  obtain ⟨taken, dropped⟩ := takeWhile_stop all outside (symbols ++ renderPieces pieces runs ++ rest)
                  have tail := ih tailFits
                  simp only [renderPieces, List.cons_append, List.append_assoc] at tail taken dropped ⊢
                  rw [readPieces]
                  simp only [taken, dropped, nonempty, if_false, tail]
                  rfl

end ExitfyCores.Records
