/-
Module: ExitfyCores.Proofs.PdfObjectGrammar
Layer: Proofs
Purpose: The scanner for PDF objects finds a pattern in the stream without its comments, however the stream is cut
  into chunks. Comments are taken out first: on what is left, the scanner is an automaton of seven states, each of
  which says how the bytes read so far end.
Imports: ExitfyCores.Proofs.PayloadScanners
Trusted boundary: human-reviewed spec of `stripComments` and `HasObject`
Main exports: stripComments, HasObject, View, view_foldl, Progress, found_iff_hasObject
Open obligations: none
-/
import ExitfyCores.Proofs.PayloadScanners

namespace ExitfyCores.Bundle.PdfObjectScanner

/-! ### The pattern -/

mutual

/-- A stream with every comment replaced by one blank; a comment runs from `%` to the next line end. -/
def stripComments : Bytes → Bytes
  | [] => []
  | b :: rest => if b = byte '%' then 0x20 :: skipComment rest else b :: stripComments rest

/-- The rest of a stream that begins inside a comment. -/
def skipComment : Bytes → Bytes
  | [] => []
  | b :: rest => if b = 0x0D ∨ b = 0x0A then b :: stripComments rest else skipComment rest

end

/-- A number of one to ten digits. -/
def IsNumber (bytes : Bytes) : Prop := bytes ≠ [] ∧ bytes.length ≤ 10 ∧ ∀ b ∈ bytes, isDigitByte b = true

/-- One or more whitespace bytes. -/
def IsGap (bytes : Bytes) : Prop := bytes ≠ [] ∧ ∀ b ∈ bytes, isWhitespace b = true

/-- The start of the stream, or behind whitespace or a delimiter. -/
def AtBoundary (before : Bytes) : Prop := ∀ b ∈ before.getLast?, isBoundary b = true

/-- Two numbers, the keyword and a boundary behind it. -/
def HasObject (stream : Bytes) : Prop :=
  ∃ before first gap second gap' last after,
    stream = before ++ (first ++ (gap ++ (second ++ (gap' ++ (lit "obj" ++ last :: after))))) ∧
      AtBoundary before ∧ IsNumber first ∧ IsGap gap ∧ IsNumber second ∧ IsGap gap' ∧ isBoundary last = true

/-! ### The automaton without comments -/

/-- The state of a scanner between two bytes of a stream without comments. -/
inductive View where
  | seek (boundary : Bool)
  | number (completed digits : Nat)
  | gap (completed : Nat)
  | keywordO
  | keywordB
  | keywordJ
  | found
deriving DecidableEq

/-- What a scanner stands for; inside a comment, a state behind a blank. -/
def view (scanner : PdfObjectScanner) : View :=
  if scanner.found then .found
  else
    match scanner.state with
    | .seekFirst => .seek scanner.boundary
    | .number => .number scanner.completedNumbers scanner.digits
    | .numberGap => .gap scanner.completedNumbers
    | .keywordO => .keywordO
    | .keywordB => .keywordB
    | .keywordJ => .keywordJ
    | .comment => if scanner.completedNumbers ≠ 0 then .gap scanner.completedNumbers else .seek true

/-- One byte. -/
def View.step (state : View) (b : UInt8) : View :=
  match state with
  | .seek boundary => if boundary ∧ isDigitByte b then .number 0 1 else .seek (isBoundary b)
  | .number completed digits =>
      if isDigitByte b then if 10 < digits + 1 then .seek (isBoundary b) else .number completed (digits + 1)
      else if isWhitespace b then .gap (min 2 (completed + 1))
      else .seek (isBoundary b)
  | .gap completed =>
      if isWhitespace b then .gap completed
      else if isDigitByte b then .number completed 1
      else if 2 ≤ completed ∧ b = byte 'o' then .keywordO
      else .seek (isBoundary b)
  | .keywordO => if b = byte 'b' then .keywordB else .seek (isBoundary b)
  | .keywordB => if b = byte 'j' then .keywordJ else .seek (isBoundary b)
  | .keywordJ => if isBoundary b then .found else .seek (isBoundary b)
  | .found => .found

/-- Between two bytes, a count of numbers is there only where it is used. -/
def Tidy (scanner : PdfObjectScanner) : Prop :=
  (scanner.state = .seekFirst → scanner.completedNumbers = 0) ∧
    (scanner.state = .numberGap → scanner.completedNumbers ≠ 0)

/-! ### Taking out comments -/

/-- What the rest of the stream is without its comments, where a scanner stands. -/
def remaining (scanner : PdfObjectScanner) (data : Bytes) : Bytes :=
  if scanner.state = .comment then skipComment data else stripComments data

/-- One guarded byte of `feed`. -/
def feedByte (scanner : PdfObjectScanner) (b : UInt8) : PdfObjectScanner :=
  if scanner.found then scanner else scanner.step b

/-- A fact about all bytes, from a check of each. -/
theorem forall_byte {fact : UInt8 → Prop} (each : ∀ n : Fin 256, fact (.ofFin n)) (b : UInt8) : fact b := each b.toFin

/-- What the classes of the scanner have in common. -/
theorem class_facts (b : UInt8) :
    (isDigitByte b = true → isWhitespace b = false ∧ isBoundary b = false ∧ b ≠ byte '%' ∧ b ≠ byte 'o') ∧
      (isWhitespace b = true →
        isBoundary b = true ∧ isDigitByte b = false ∧ b ≠ byte '%' ∧ b ≠ byte 'b' ∧ b ≠ byte 'j') := by
  revert b
  exact forall_byte (by decide +kernel)

theorem digit_facts (b : UInt8) (digit : isDigitByte b = true) :
    isWhitespace b = false ∧ isBoundary b = false ∧ b ≠ byte '%' ∧ b ≠ byte 'o' :=
  (class_facts b).1 digit

theorem whitespace_facts (b : UInt8) (whitespace : isWhitespace b = true) :
    isBoundary b = true ∧ isDigitByte b = false ∧ b ≠ byte '%' ∧ b ≠ byte 'b' ∧ b ≠ byte 'j' :=
  (class_facts b).2 whitespace

theorem feedByte_tidy {scanner : PdfObjectScanner} (tidy : scanner.Tidy) (b : UInt8) : (scanner.feedByte b).Tidy := by
  obtain ⟨state, digits, completed, boundary, found⟩ := scanner
  obtain ⟨seeking, inGap⟩ := tidy
  cases found with
  | true => exact ⟨seeking, inGap⟩
  | false =>
      rw [feedByte, if_neg Bool.false_ne_true]
      cases state <;> simp only [step, reset] <;> split_ifs <;> simp_all [Tidy]

/-- Outside comments, a byte that begins none is a step of the automaton. -/
theorem view_feedByte {scanner : PdfObjectScanner} (tidy : scanner.Tidy) (outside : scanner.state ≠ .comment)
    {b : UInt8} (plain : b ≠ byte '%') : view (scanner.feedByte b) = (view scanner).step b := by
  obtain ⟨state, digits, completed, boundary, found⟩ := scanner
  cases found with
  | true => rfl
  | false =>
      rw [feedByte, if_neg Bool.false_ne_true]
      cases state with
      | comment => exact absurd rfl outside
      | _ =>
          simp only [step, plain, if_false, apply_ite view]
          rfl

theorem feedByte_outside {scanner : PdfObjectScanner} (outside : scanner.state ≠ .comment) {b : UInt8}
    (plain : b ≠ byte '%') : (scanner.feedByte b).state ≠ .comment := by
  obtain ⟨state, digits, completed, boundary, found⟩ := scanner
  cases found with
  | true => exact outside
  | false =>
      rw [feedByte, if_neg Bool.false_ne_true]
      cases state with
      | comment => exact absurd rfl outside
      | _ =>
          simp only [step, plain, if_false, reset]
          split_ifs <;> simp

/-- The start of a comment is a step on a blank. -/
theorem view_feedByte_percent {scanner : PdfObjectScanner} (tidy : scanner.Tidy) (outside : scanner.state ≠ .comment) :
    view (scanner.feedByte (byte '%')) = (view scanner).step 0x20 ∧
      ((scanner.feedByte (byte '%')).found = true ∨ (scanner.feedByte (byte '%')).state = .comment) := by
  obtain ⟨state, digits, completed, boundary, found⟩ := scanner
  obtain ⟨seeking, inGap⟩ := tidy
  have percent : isDigitByte (byte '%') = false ∧ isWhitespace (byte '%') = false ∧ isBoundary (byte '%') = true ∧
      byte '%' ≠ byte 'o' ∧ byte '%' ≠ byte 'b' ∧ byte '%' ≠ byte 'j' := by decide
  have blank : isDigitByte 0x20 = false ∧ isWhitespace 0x20 = true ∧ isBoundary 0x20 = true ∧
      (0x20 : UInt8) ≠ byte 'b' ∧ (0x20 : UInt8) ≠ byte 'j' := by decide
  obtain ⟨noDigit, noWhitespace, delimiter, noO, noB, noJ⟩ := percent
  obtain ⟨noDigit', whitespace, delimiter', noB', noJ'⟩ := blank
  cases found with
  | true => exact ⟨rfl, Or.inl rfl⟩
  | false =>
      rw [feedByte, if_neg Bool.false_ne_true]
      cases state with
      | comment => exact absurd rfl outside
      | seekFirst => simp [step, view, View.step, noDigit, noDigit', delimiter']
      | number => simp [step, view, View.step, noDigit, noDigit', noWhitespace, whitespace]
      | numberGap =>
          have some_number : completed ≠ 0 := inGap rfl
          simp [step, view, View.step, noDigit, noWhitespace, whitespace, noO, some_number]
      | keywordO => simp [step, view, View.step, noB, noB', delimiter']
      | keywordB => simp [step, view, View.step, noJ, noJ', delimiter']
      | keywordJ => simp [step, view, View.step, delimiter, delimiter']

theorem foldl_found (data : Bytes) : data.foldl View.step .found = .found := by
  induction data with
  | nil => rfl
  | cons b data ih => exact ih

theorem foldl_feedByte_of_found {scanner : PdfObjectScanner} (found : scanner.found = true) (data : Bytes) :
    view (data.foldl feedByte scanner) = .found := by
  have same : data.foldl feedByte scanner = scanner := feed_of_found found data
  rw [same, view, if_pos found]

/-- A line end behind a comment changes nothing: the comment has been a blank. -/
theorem view_feedByte_lineEnd {scanner : PdfObjectScanner} (alive : scanner.found = false)
    (inside : scanner.state = .comment) {b : UInt8} (lineEnd : b = 0x0D ∨ b = 0x0A) :
    view (scanner.feedByte b) = view scanner ∧ (view scanner).step b = view scanner ∧
      (scanner.feedByte b).state ≠ .comment := by
  obtain ⟨state, digits, completed, boundary, found⟩ := scanner
  cases alive
  cases inside
  have facts : isWhitespace b = true ∧ isDigitByte b = false ∧ isBoundary b = true := by
    rcases lineEnd with rfl | rfl
    · decide
    · decide
  obtain ⟨whitespace, noDigit, delimiter⟩ := facts
  rw [feedByte, if_neg Bool.false_ne_true]
  by_cases none_read : completed = 0
  · simp [step, view, View.step, lineEnd, none_read, noDigit, delimiter]
  · simp [step, view, View.step, lineEnd, none_read, whitespace]

/-- A scanner on a stream is the automaton on the stream without its comments. -/
theorem view_foldl {scanner : PdfObjectScanner} (tidy : scanner.Tidy) (data : Bytes) :
    view (data.foldl feedByte scanner) = (remaining scanner data).foldl View.step (view scanner) := by
  induction data generalizing scanner with
  | nil =>
      rw [remaining]
      split <;> rfl
  | cons b data ih =>
      cases found : scanner.found with
      | true => rw [foldl_feedByte_of_found found, view, if_pos found, foldl_found]
      | false =>
          rw [List.foldl_cons, ih (feedByte_tidy tidy b)]
          by_cases inside : scanner.state = .comment
          case pos =>
            by_cases lineEnd : b = 0x0D ∨ b = 0x0A
            case pos =>
              obtain ⟨same, kept, outside⟩ := view_feedByte_lineEnd found inside lineEnd
              rw [same, remaining, if_neg outside, remaining, if_pos inside, skipComment, if_pos lineEnd,
                List.foldl_cons, kept]
            case neg =>
              have same : scanner.feedByte b = scanner := by
                rw [feedByte, if_neg (by simp [found]), step, inside]
                exact if_neg lineEnd
              rw [same, remaining, if_pos inside, remaining, if_pos inside, skipComment, if_neg lineEnd]
          case neg =>
            by_cases percent : b = byte '%'
            case pos =>
              subst percent
              obtain ⟨stepped, outcome⟩ := view_feedByte_percent tidy inside
              have rest : remaining scanner (byte '%' :: data) = 0x20 :: skipComment data := by
                rw [remaining, if_neg inside, stripComments, if_pos rfl]
              rw [rest, List.foldl_cons, ← stepped]
              rcases outcome with overrun | comment
              · rw [view, if_pos overrun, foldl_found, foldl_found]
              · rw [remaining, if_pos comment]
            case neg =>
              rw [view_feedByte tidy inside percent, remaining, if_neg (feedByte_outside inside percent), remaining,
                if_neg inside, stripComments, if_neg percent, List.foldl_cons]

/-! ### What is found is there -/

/-- Behind a boundary, a number and a gap. -/
def OneNumber (before : Bytes) : Prop :=
  ∃ left number gap, before = left ++ (number ++ gap) ∧ AtBoundary left ∧ IsNumber number ∧ IsGap gap

/-- Behind a boundary, two numbers with gaps. -/
def TwoNumbers (before : Bytes) : Prop :=
  ∃ left first gap second gap', before = left ++ (first ++ (gap ++ (second ++ gap'))) ∧ AtBoundary left ∧
    IsNumber first ∧ IsGap gap ∧ IsNumber second ∧ IsGap gap'

/-- What the state says about the bytes read so far. -/
def Progress (before : Bytes) : View → Prop
  | .seek boundary => boundary = true → AtBoundary before
  | .number completed digits =>
      ∃ left number, before = left ++ number ∧ AtBoundary left ∧ IsNumber number ∧ number.length = digits ∧
        (completed ≠ 0 → OneNumber left)
  | .gap completed => OneNumber before ∧ (2 ≤ completed → TwoNumbers before)
  | .keywordO => ∃ left, before = left ++ lit "o" ∧ TwoNumbers left
  | .keywordB => ∃ left, before = left ++ lit "ob" ∧ TwoNumbers left
  | .keywordJ => ∃ left, before = left ++ lit "obj" ∧ TwoNumbers left
  | .found => HasObject before

theorem atBoundary_concat {before : Bytes} {b : UInt8} : AtBoundary (before ++ [b]) ↔ isBoundary b = true := by
  simp [AtBoundary]

theorem isNumber_concat {number : Bytes} {b : UInt8} (isNumber : IsNumber number) (digit : isDigitByte b = true)
    (room : number.length + 1 ≤ 10) : IsNumber (number ++ [b]) := by
  refine ⟨by simp, by simpa using room, ?_⟩
  simpa [or_imp, forall_and, digit] using isNumber.2.2

theorem isGap_concat {gap : Bytes} {b : UInt8} (isGap : IsGap gap) (whitespace : isWhitespace b = true) :
    IsGap (gap ++ [b]) := by
  refine ⟨by simp, ?_⟩
  simpa [or_imp, forall_and, whitespace] using isGap.2

theorem OneNumber.concat {before : Bytes} {b : UInt8} (one : OneNumber before) (whitespace : isWhitespace b = true) :
    OneNumber (before ++ [b]) := by
  obtain ⟨left, number, gap, rfl, boundary, isNumber, isGap⟩ := one
  exact ⟨left, number, gap ++ [b], by simp, boundary, isNumber, isGap_concat isGap whitespace⟩

theorem TwoNumbers.concat {before : Bytes} {b : UInt8} (two : TwoNumbers before) (whitespace : isWhitespace b = true) :
    TwoNumbers (before ++ [b]) := by
  obtain ⟨left, first, gap, second, gap', rfl, boundary, isFirst, isGap, isSecond, isGap'⟩ := two
  exact ⟨left, first, gap, second, gap' ++ [b], by simp, boundary, isFirst, isGap, isSecond,
    isGap_concat isGap' whitespace⟩

/-- A gap ends at a boundary. -/
theorem OneNumber.atBoundary {before : Bytes} (one : OneNumber before) : AtBoundary before := by
  obtain ⟨left, number, gap, rfl, -, -, some_gap, whitespace⟩ := one
  obtain ⟨front, last, rfl⟩ := List.eq_nil_or_concat gap |>.resolve_left some_gap
  have whole : left ++ (number ++ front.concat last) = (left ++ (number ++ front)) ++ [last] := by simp
  rw [whole, atBoundary_concat]
  exact (whitespace_facts last (whitespace last (by simp))).1

/-- One byte. -/
theorem Progress.step {before : Bytes} {state : View} (progress : Progress before state) (b : UInt8) :
    Progress (before ++ [b]) (state.step b) := by
  have restart : Progress (before ++ [b]) (.seek (isBoundary b)) := fun boundary => atBoundary_concat.mpr boundary
  have single : isDigitByte b = true → IsNumber [b] := by
    intro digit
    exact ⟨by simp, by simp, by simpa using digit⟩
  cases state with
  | seek boundary =>
      simp only [View.step]
      split
      case isTrue begins =>
        exact ⟨before, [b], rfl, progress begins.1, single begins.2, rfl, fun absurd_count => (absurd_count rfl).elim⟩
      case isFalse => exact restart
  | number completed digits =>
      obtain ⟨left, number, rfl, boundary, isNumber, count, first⟩ := progress
      simp only [View.step]
      split
      case isTrue digit =>
        split
        case isTrue => exact restart
        case isFalse room =>
          exact ⟨left, number ++ [b], by simp, boundary, isNumber_concat isNumber digit (by omega), by simp [count],
            first⟩
      case isFalse =>
        split
        case isTrue whitespace =>
          have gap : IsGap [b] := ⟨by simp, by simpa using whitespace⟩
          refine ⟨⟨left, number, [b], by simp, boundary, isNumber, gap⟩, fun two => ?_⟩
          obtain ⟨left', number', gap', rfl, boundary', isNumber', isGap'⟩ := first (by omega)
          exact ⟨left', number', gap', number, [b], by simp, boundary', isNumber', isGap', isNumber, gap⟩
        case isFalse => exact restart
  | gap completed =>
      obtain ⟨one, two⟩ := progress
      simp only [View.step]
      split
      case isTrue whitespace => exact ⟨one.concat whitespace, fun enough => (two enough).concat whitespace⟩
      case isFalse =>
        split
        case isTrue digit => exact ⟨before, [b], rfl, one.atBoundary, single digit, rfl, fun _ => one⟩
        case isFalse =>
          split
          case isTrue keyword => exact ⟨before, by rw [keyword.2]; rfl, two keyword.1⟩
          case isFalse => exact restart
  | keywordO =>
      obtain ⟨left, rfl, two⟩ := progress
      simp only [View.step]
      split
      case isTrue keyword => exact ⟨left, by rw [keyword, List.append_assoc]; rfl, two⟩
      case isFalse => exact restart
  | keywordB =>
      obtain ⟨left, rfl, two⟩ := progress
      simp only [View.step]
      split
      case isTrue keyword => exact ⟨left, by rw [keyword, List.append_assoc]; rfl, two⟩
      case isFalse => exact restart
  | keywordJ =>
      obtain ⟨left, rfl, left', first, gap, second, gap', rfl, boundary, isFirst, isGap, isSecond, isGap'⟩ := progress
      simp only [View.step]
      split
      case isTrue ends =>
        exact ⟨left', first, gap, second, gap', b, [], by simp, boundary, isFirst, isGap, isSecond, isGap', ends⟩
      case isFalse => exact restart
  | found =>
      obtain ⟨left, first, gap, second, gap', last, after, rfl, boundary, isFirst, isGap, isSecond, isGap', ends⟩ :=
        progress
      exact ⟨left, first, gap, second, gap', last, after ++ [b], by simp, boundary, isFirst, isGap, isSecond, isGap',
        ends⟩

theorem Progress.foldl {before : Bytes} {state : View} (progress : Progress before state) (data : Bytes) :
    Progress (before ++ data) (data.foldl View.step state) := by
  induction data generalizing before state with
  | nil => simpa using progress
  | cons b data ih => simpa using ih (progress.step b)

/-! ### What is there is found -/

/-- A state in which a number may begin. -/
def Ready (state : View) : Prop := state = .seek true ∨ ∃ completed, state = .gap completed

theorem boundary_not_digit {b : UInt8} (boundary : isBoundary b = true) : isDigitByte b = false := by
  by_contra digit
  rw [(digit_facts b (by simpa using digit)).2.1] at boundary
  cases boundary

/-- Behind a boundary a number may begin, whatever was attempted before. -/
theorem ready_step {state : View} {b : UInt8} (boundary : isBoundary b = true) :
    state.step b = .found ∨ Ready (state.step b) := by
  have noDigit := boundary_not_digit boundary
  cases state with
  | seek before => exact Or.inr (Or.inl (by simp [View.step, noDigit, boundary]))
  | number completed digits =>
      by_cases whitespace : isWhitespace b = true
      · exact Or.inr (Or.inr ⟨min 2 (completed + 1), by simp [View.step, noDigit, whitespace]⟩)
      · exact Or.inr (Or.inl (by simp [View.step, noDigit, whitespace, boundary]))
  | gap completed =>
      by_cases whitespace : isWhitespace b = true
      · exact Or.inr (Or.inr ⟨completed, by simp [View.step, whitespace]⟩)
      · have noKeyword : b ≠ byte 'o' := by
          intro keyword
          subst keyword
          revert boundary
          decide
        exact Or.inr (Or.inl (by simp [View.step, noDigit, whitespace, boundary, noKeyword]))
  | keywordO =>
      have noKeyword : b ≠ byte 'b' := by
        intro keyword
        subst keyword
        revert boundary
        decide
      exact Or.inr (Or.inl (by simp [View.step, noKeyword, boundary]))
  | keywordB =>
      have noKeyword : b ≠ byte 'j' := by
        intro keyword
        subst keyword
        revert boundary
        decide
      exact Or.inr (Or.inl (by simp [View.step, noKeyword, boundary]))
  | keywordJ => exact Or.inl (by simp [View.step, boundary])
  | found => exact Or.inl rfl

theorem ready_foldl {before : Bytes} (boundary : AtBoundary before) :
    before.foldl View.step (.seek true) = .found ∨ Ready (before.foldl View.step (.seek true)) := by
  rcases List.eq_nil_or_concat before with rfl | ⟨front, last, rfl⟩
  · exact Or.inr (Or.inl rfl)
  · rw [List.concat_eq_append] at boundary ⊢
    rw [List.foldl_append]
    exact ready_step (atBoundary_concat.mp boundary)

theorem foldl_digits {completed digits : Nat} {number : Bytes} (all : ∀ b ∈ number, isDigitByte b = true)
    (room : digits + number.length ≤ 10) :
    number.foldl View.step (.number completed digits) = .number completed (digits + number.length) := by
  induction number generalizing digits with
  | nil => rfl
  | cons b number ih =>
      rw [List.length_cons] at room ⊢
      have first : (View.number completed digits).step b = .number completed (digits + 1) := by
        have few : ¬ 10 < digits + 1 := by omega
        simp [View.step, all b List.mem_cons_self, few]
      rw [List.foldl_cons, first, ih (fun c member => all c (List.mem_cons_of_mem b member)) (by omega)]
      congr 1
      omega

/-- A number is read to its end. -/
theorem foldl_number {state : View} (ready : Ready state) {number : Bytes} (isNumber : IsNumber number) :
    ∃ completed digits, number.foldl View.step state = .number completed digits ∧
      ∀ before, state = .gap before → completed = before := by
  obtain ⟨some_digit, few, all⟩ := isNumber
  cases number with
  | nil => exact absurd rfl some_digit
  | cons b number =>
      have digit := all b List.mem_cons_self
      have rest : ∀ c ∈ number, isDigitByte c = true := fun c member => all c (List.mem_cons_of_mem b member)
      rw [List.length_cons] at few
      rcases ready with rfl | ⟨completed, rfl⟩
      · have first : (View.seek true).step b = .number 0 1 := by simp [View.step, digit]
        refine ⟨0, 1 + number.length, ?_, fun before same => by cases same⟩
        rw [List.foldl_cons, first, foldl_digits rest (by omega)]
      · have first : (View.gap completed).step b = .number completed 1 := by
          simp [View.step, digit, (digit_facts b digit).1]
        refine ⟨completed, 1 + number.length, ?_, fun before same => by cases same; rfl⟩
        rw [List.foldl_cons, first, foldl_digits rest (by omega)]

theorem foldl_gap_whitespace {completed : Nat} {gap : Bytes} (all : ∀ b ∈ gap, isWhitespace b = true) :
    gap.foldl View.step (.gap completed) = .gap completed := by
  induction gap with
  | nil => rfl
  | cons b gap ih =>
      have first : (View.gap completed).step b = .gap completed := by simp [View.step, all b List.mem_cons_self]
      rw [List.foldl_cons, first, ih fun c member => all c (List.mem_cons_of_mem b member)]

/-- A gap counts the number before it. -/
theorem foldl_gap {completed digits : Nat} {gap : Bytes} (isGap : IsGap gap) :
    gap.foldl View.step (.number completed digits) = .gap (min 2 (completed + 1)) := by
  obtain ⟨some_blank, all⟩ := isGap
  cases gap with
  | nil => exact absurd rfl some_blank
  | cons b gap =>
      have whitespace := all b List.mem_cons_self
      have first : (View.number completed digits).step b = .gap (min 2 (completed + 1)) := by
        simp [View.step, (whitespace_facts b whitespace).2.1, whitespace]
      rw [List.foldl_cons, first, foldl_gap_whitespace fun c member => all c (List.mem_cons_of_mem b member)]

theorem foldl_found_of_hasObject {stream : Bytes} (object : HasObject stream) :
    stream.foldl View.step (.seek true) = .found := by
  obtain ⟨before, first, gap, second, gap', last, after, rfl, boundary, isFirst, isGap, isSecond, isGap', ends⟩ :=
    object
  simp only [List.foldl_append]
  rcases ready_foldl boundary with overrun | ready
  · simp only [overrun, foldl_found]
  · obtain ⟨completed, digits, one, -⟩ := foldl_number ready isFirst
    obtain ⟨completed', digits', two, kept⟩ :=
      foldl_number (Or.inr ⟨min 2 (completed + 1), rfl⟩) isSecond
    have counted : min 2 (completed' + 1) = 2 := by
      rw [kept _ rfl]
      omega
    have keyword : (lit "obj" ++ last :: after).foldl View.step (.gap 2) = .found := by
      have read : (lit "obj").foldl View.step (.gap 2) = .keywordJ := by decide
      have final : View.keywordJ.step last = .found := by simp [View.step, ends]
      rw [List.foldl_append, read, List.foldl_cons, final, foldl_found]
    rw [List.foldl_append] at keyword
    rw [one, foldl_gap isGap, two, foldl_gap isGap', counted, keyword]

/-! ### The scanner -/

theorem foldl_feed (chunks : List Bytes) (scanner : PdfObjectScanner) :
    chunks.foldl feed scanner = scanner.feed chunks.flatten := by
  induction chunks generalizing scanner with
  | nil => rfl
  | cons chunk chunks ih => rw [List.foldl_cons, ih, feed_append, List.flatten_cons]

/-- The scanner finds an object exactly if the stream has one when its comments are taken out, however the stream is
cut. -/
theorem found_iff_hasObject (chunks : List Bytes) :
    (chunks.foldl feed init).found = true ↔ HasObject (stripComments chunks.flatten) := by
  have tidy : init.Tidy := ⟨fun _ => rfl, fun state => by cases state⟩
  have simulated : view (init.feed chunks.flatten) = (stripComments chunks.flatten).foldl View.step (.seek true) :=
    view_foldl tidy chunks.flatten
  have found : (init.feed chunks.flatten).found = true ↔ view (init.feed chunks.flatten) = .found := by
    generalize init.feed chunks.flatten = scanner
    obtain ⟨state, digits, completed, boundary, found⟩ := scanner
    cases found with
    | true => simp [view]
    | false =>
        cases state with
        | comment => by_cases counted : completed = 0 <;> simp [view, counted]
        | _ => simp [view]
  rw [foldl_feed, found, simulated]
  constructor
  · intro overrun
    have begins : Progress [] (.seek true) := fun _ b member => by cases member
    have progress := begins.foldl (stripComments chunks.flatten)
    rw [overrun] at progress
    exact progress
  · exact foldl_found_of_hasObject

end ExitfyCores.Bundle.PdfObjectScanner
