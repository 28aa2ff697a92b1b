/-
Module: ExitfyCores.Proofs.PayloadScanners
Layer: Proofs
Purpose: The parts of the payload scan: what the bounded search for host paths finds, and that the scanners for Intel
  HEX and PDF objects take a payload byte by byte, so that it does not matter how it is cut.
Imports: ExitfyCores.Bundle.Payload
Trusted boundary: none
Main exports: containsLocalHostPathBefore_iff, homePathAt_local, IntelHexScanner.feed_append,
  PdfObjectScanner.feed_append, pdfHeaderEnd_append
Open obligations: none
-/
import ExitfyCores.Bundle.Payload

namespace ExitfyCores.Bundle

/-! ### Host paths -/

theorem homePaths_bounded :
    ∀ pattern ∈ homePaths, pattern.RepetitionFree ∧ pattern.width ≤ contentScanOverlapBytes := by
  decide

theorem homePathAt_local {pattern : Regex UInt8} (member : pattern ∈ homePaths) :
    Window.Local (homePathAt pattern) contentScanOverlapBytes := by
  intro before text more long
  obtain ⟨free, narrow⟩ := homePaths_bounded pattern member
  have same : (pattern.ends before (text ++ more)).isEmpty = (pattern.ends before text).isEmpty := by
    rw [Bool.eq_iff_iff, List.isEmpty_iff, List.isEmpty_iff]
    exact Regex.ends_append_eq_nil_iff free before more (Nat.lt_of_le_of_lt narrow long)
  simp [homePathAt, same]

theorem homePathAt_consuming {pattern : Regex UInt8} (member : pattern ∈ homePaths) :
    Window.Consuming (homePathAt pattern) := by
  intro before
  have silent : ∀ pattern ∈ homePaths, pattern.ends before [] = [] := by
    simp only [homePaths, List.forall_mem_cons]
    exact ⟨rfl, rfl, rfl, rfl, by simp⟩
  simp [homePathAt, silent pattern member]

theorem patternBefore_iff {pattern : Regex UInt8} {data : Bytes} {startLimit minimumStart fuel position : Nat}
    (inside : startLimit ≤ data.length) (enough : startLimit ≤ position + fuel) :
    patternBefore pattern data startLimit minimumStart fuel position = true ↔
      ∃ start, position ≤ start ∧ minimumStart ≤ start ∧ start < startLimit ∧
        Window.occursAt (homePathAt pattern) data start = true := by
  induction fuel generalizing position with
  | zero =>
      simp only [patternBefore, Bool.false_eq_true, false_iff]
      rintro ⟨start, low, _, high, _⟩
      omega
  | succ fuel ih =>
      rw [patternBefore]
      split
      case isFalse behind =>
        simp only [Bool.false_eq_true, false_iff]
        rintro ⟨start, low, _, high, _⟩
        omega
      case isTrue =>
        split
        case h_1 none =>
          rw [Window.search_eq_none_iff] at none
          simp only [Bool.false_eq_true, false_iff]
          rintro ⟨start, low, _, high, occurs⟩
          rw [none start low (by omega)] at occurs
          cases occurs
        case h_2 start found =>
          obtain ⟨low, _, occurs, first⟩ := Window.search_eq_some_iff.mp found
          -- An occurrence from `position` on is not before the first.
          have later : ∀ {other}, position ≤ other → Window.occursAt (homePathAt pattern) data other = true →
              start ≤ other := by
            intro other low' occurs'
            by_contra before
            rw [first other low' (by omega)] at occurs'
            cases occurs'
          split
          case isTrue far =>
            simp only [Bool.false_eq_true, false_iff]
            rintro ⟨other, low', _, high, occurs'⟩
            have := later low' occurs'
            omega
          case isFalse near =>
            split
            case isTrue reached => exact ⟨fun _ => ⟨start, low, reached, by omega, occurs⟩, fun _ => rfl⟩
            case isFalse early =>
              rw [ih (by omega)]
              constructor
              · rintro ⟨other, low', least, high, occurs'⟩
                exact ⟨other, by omega, least, high, occurs'⟩
              · rintro ⟨other, low', least, high, occurs'⟩
                have := later low' occurs'
                exact ⟨other, by omega, least, high, occurs'⟩

/-- The bounded search finds what starts from the minimum on and below the limit. -/
theorem containsLocalHostPathBefore_iff {data : Bytes} {startLimit minimumStart : Nat}
    (inside : startLimit ≤ data.length) :
    containsLocalHostPathBefore data startLimit minimumStart = true ↔
      ∃ pattern ∈ homePaths, ∃ start, minimumStart ≤ start ∧ start < startLimit ∧
        Window.occursAt (homePathAt pattern) data start = true := by
  simp [containsLocalHostPathBefore, List.any_eq_true, patternBefore_iff inside]

theorem containsLocalHostPath_iff {data : Bytes} :
    containsLocalHostPath data = true ↔
      ∃ pattern ∈ homePaths, ∃ start ≤ data.length, Window.occursAt (homePathAt pattern) data start = true := by
  simp only [containsLocalHostPath, List.any_eq_true, Option.isSome_iff_ne_none, ne_eq, Window.search_eq_none_iff]
  simp

/-! ### Intel HEX -/

namespace IntelHexScanner

/-- A scanner that has given up. -/
def dead (scanner : IntelHexScanner) : IntelHexScanner := { scanner with possible := false, line := [] }

/-- One byte behind the preamble. -/
def bodyByte (scanner : IntelHexScanner) (b : UInt8) : IntelHexScanner :=
  if ¬ scanner.possible then scanner
  else if isLineEnd b then scanner.finishLine
  else if maxIntelHexLineBytes < scanner.line.length + 1 then scanner.dead
  else { scanner with line := scanner.line ++ [b] }

/-- The line kept is not too long. -/
def Short (scanner : IntelHexScanner) : Prop := scanner.line.length ≤ maxIntelHexLineBytes

theorem line_finishLine (scanner : IntelHexScanner) : scanner.finishLine.line = [] := by
  simp only [finishLine]
  split
  · rfl
  · split
    · rfl
    · split <;> rfl

theorem Short.finishLine (scanner : IntelHexScanner) : scanner.finishLine.Short := by
  simp [Short, line_finishLine]

theorem foldl_bodyByte_of_not_possible {scanner : IntelHexScanner} (overrun : scanner.possible = false) (data : Bytes) :
    data.foldl bodyByte scanner = scanner := by
  induction data with
  | nil => rfl
  | cons b data ih =>
      have still : scanner.bodyByte b = scanner := by simp [bodyByte, overrun]
      rw [List.foldl_cons, still, ih]

/-- A piece of one line is added to the line, or it makes it too long. -/
theorem foldl_bodyByte_piece {scanner : IntelHexScanner} (possible : scanner.possible = true) (short : scanner.Short)
    {piece : Bytes} (inside : ∀ b ∈ piece, isLineEnd b = false) :
    piece.foldl bodyByte scanner =
      if maxIntelHexLineBytes < scanner.line.length + piece.length then scanner.dead
      else { scanner with line := scanner.line ++ piece } := by
  induction piece generalizing scanner with
  | nil =>
      have fits : ¬ maxIntelHexLineBytes < scanner.line.length + ([] : Bytes).length := Nat.not_lt.mpr short
      rw [if_neg fits]
      simp
  | cons b piece ih =>
      have plain := inside b List.mem_cons_self
      rw [List.foldl_cons, bodyByte, if_neg (by simp [possible]), if_neg (by simp [plain])]
      split
      case isTrue full =>
        have long : maxIntelHexLineBytes < scanner.line.length + (b :: piece).length := by
          rw [List.length_cons]
          omega
        rw [foldl_bodyByte_of_not_possible rfl, if_pos long]
      case isFalse room =>
        have counts : (scanner.line ++ [b]).length + piece.length = scanner.line.length + (b :: piece).length := by
          simp only [List.length_append, List.length_cons, List.length_nil]
          omega
        have short' : Short { scanner with line := scanner.line ++ [b] } := by
          simpa [Short] using Nat.not_lt.mp room
        rw [@ih { scanner with line := scanner.line ++ [b] } possible short'
          fun c member => inside c (List.mem_cons_of_mem b member)]
        simp only [counts, dead, List.append_assoc, List.singleton_append]

/-- The body is read byte by byte. -/
theorem feedBody_eq_foldl {fuel : Nat} {scanner : IntelHexScanner} (possible : scanner.possible = true)
    (short : scanner.Short) {data : Bytes} (enough : data.length ≤ fuel) :
    feedBody fuel scanner data = data.foldl bodyByte scanner := by
  induction fuel generalizing scanner data with
  | zero =>
      rw [List.length_eq_zero_iff.mp (Nat.le_zero.mp enough)]
      rfl
  | succ fuel ih =>
      rw [feedBody]
      split
      case isTrue empty => simp [empty]
      case isFalse =>
        let lineByte := fun b => !isLineEnd b
        have parts : data = data.takeWhile lineByte ++ data.dropWhile lineByte := List.takeWhile_append_dropWhile.symm
        have inside : ∀ b ∈ data.takeWhile lineByte, isLineEnd b = false := by
          intro b member
          simpa [lineByte] using List.all_eq_true.mp List.all_takeWhile b member
        conv => rhs; rw [parts, List.foldl_append, foldl_bodyByte_piece possible short inside]
        by_cases long : maxIntelHexLineBytes < scanner.line.length + (data.takeWhile lineByte).length
        case pos =>
          rw [if_pos long, if_pos long, foldl_bodyByte_of_not_possible rfl]
          rfl
        case neg =>
          rw [if_neg long, if_neg long]
          cases rest : data.dropWhile lineByte with
          | nil => rfl
          | cons b rest' =>
              have terminator : isLineEnd b = true := by
                have head := List.head_dropWhile_not lineByte (l := data) (by simp [rest])
                simpa [lineByte, rest] using head
              have shorter : rest'.length ≤ fuel := by
                have := congrArg List.length parts
                simp only [rest, List.length_append, List.length_cons] at this
                omega
              simp only [List.foldl_cons]
              conv => rhs; rw [bodyByte, if_neg (by simp [possible]), if_pos terminator]
              split
              case isTrue alive => exact ih alive (Short.finishLine _) shorter
              case isFalse overrun => rw [foldl_bodyByte_of_not_possible (by simpa using overrun)]

/-- One byte. -/
def feedByte (scanner : IntelHexScanner) (b : UInt8) : IntelHexScanner :=
  if ¬ scanner.possible then scanner
  else if scanner.preambleDone then scanner.bodyByte b
  else
    let preamble := scanner.preamble ++ [b]
    let done := { scanner with preamble := [], preambleDone := true }
    if ¬ preamble.isPrefixOf utf8Bom then preamble.foldl bodyByte done
    else if preamble.length = utf8Bom.length then done
    else { scanner with preamble := preamble }

theorem feedByte_of_not_possible {scanner : IntelHexScanner} (overrun : scanner.possible = false) (b : UInt8) :
    scanner.feedByte b = scanner := by
  simp [feedByte, overrun]

theorem foldl_feedByte_of_not_possible {scanner : IntelHexScanner} (overrun : scanner.possible = false) (data : Bytes) :
    data.foldl feedByte scanner = scanner := by
  induction data with
  | nil => rfl
  | cons b data ih => rw [List.foldl_cons, feedByte_of_not_possible overrun, ih]

theorem preambleDone_finishLine (scanner : IntelHexScanner) :
    scanner.finishLine.preambleDone = scanner.preambleDone := by
  simp only [finishLine]
  split
  · rfl
  · split
    · rfl
    · split <;> rfl

theorem preambleDone_bodyByte (scanner : IntelHexScanner) (b : UInt8) :
    (scanner.bodyByte b).preambleDone = scanner.preambleDone := by
  rw [bodyByte]
  split
  · rfl
  · split
    · exact preambleDone_finishLine scanner
    · split <;> rfl

theorem Short.bodyByte {scanner : IntelHexScanner} (short : scanner.Short) (b : UInt8) :
    (scanner.bodyByte b).Short := by
  rw [IntelHexScanner.bodyByte]
  split
  case isTrue => exact short
  case isFalse =>
    split
    case isTrue => exact Short.finishLine scanner
    case isFalse =>
      split
      case isTrue => exact Nat.zero_le _
      case isFalse room => simpa [Short] using Nat.not_lt.mp room

theorem Short.foldl_bodyByte {scanner : IntelHexScanner} (short : scanner.Short) (data : Bytes) :
    (data.foldl IntelHexScanner.bodyByte scanner).Short := by
  induction data generalizing scanner with
  | nil => exact short
  | cons b data ih => exact ih (short.bodyByte b)

theorem Short.feedByte {scanner : IntelHexScanner} (short : scanner.Short) (b : UInt8) :
    (scanner.feedByte b).Short := by
  rw [IntelHexScanner.feedByte]
  split
  case isTrue => exact short
  case isFalse =>
    split
    case isTrue => exact short.bodyByte b
    case isFalse =>
      dsimp only
      split
      case isTrue => exact @Short.foldl_bodyByte { scanner with preamble := [], preambleDone := true } short _
      case isFalse => split <;> exact short

theorem Short.foldl_feedByte {scanner : IntelHexScanner} (short : scanner.Short) (data : Bytes) :
    (data.foldl IntelHexScanner.feedByte scanner).Short := by
  induction data generalizing scanner with
  | nil => exact short
  | cons b data ih => exact ih (short.feedByte b)

/-- Behind the preamble, bytes go to the body. -/
theorem foldl_feedByte_of_preambleDone {scanner : IntelHexScanner} (done : scanner.preambleDone = true) (data : Bytes) :
    data.foldl feedByte scanner = data.foldl bodyByte scanner := by
  induction data generalizing scanner with
  | nil => rfl
  | cons b data ih =>
      have same : scanner.feedByte b = scanner.bodyByte b := by
        rw [feedByte, if_pos done]
        split
        · next overrun => rw [bodyByte, if_pos overrun]
        · rfl
      rw [List.foldl_cons, List.foldl_cons, same, ih ((preambleDone_bodyByte scanner b).trans done)]

/-- The loop over the first bytes stops at the end of the data or of the preamble. -/
theorem feedPreamble_spec {scanner : IntelHexScanner} (possible : scanner.possible = true)
    (before : scanner.preambleDone = false) (short : scanner.Short) (data : Bytes) :
    data.foldl feedByte scanner = (feedPreamble scanner data).2.foldl feedByte (feedPreamble scanner data).1 ∧
      ((feedPreamble scanner data).1.preambleDone = false → (feedPreamble scanner data).2 = []) ∧
        (feedPreamble scanner data).1.Short := by
  induction data generalizing scanner with
  | nil => exact ⟨rfl, fun _ => rfl, short⟩
  | cons b data ih =>
      have first : scanner.feedByte b =
          if ¬ (scanner.preamble ++ [b]).isPrefixOf utf8Bom then
            (scanner.preamble ++ [b]).foldl bodyByte { scanner with preamble := [], preambleDone := true }
          else if (scanner.preamble ++ [b]).length = utf8Bom.length then
            { scanner with preamble := [], preambleDone := true }
          else { scanner with preamble := scanner.preamble ++ [b] } := by
        rw [feedByte, if_neg (by simp [possible]), if_neg (by simp [before])]
      let done : IntelHexScanner := { scanner with preamble := [], preambleDone := true }
      rw [List.foldl_cons, feedPreamble]
      split
      case isTrue other =>
        have pending : feedBody (scanner.preamble ++ [b]).length done (scanner.preamble ++ [b]) =
            (scanner.preamble ++ [b]).foldl bodyByte done :=
          @feedBody_eq_foldl _ done possible short _ (Nat.le_refl _)
        have overrun : ((scanner.preamble ++ [b]).foldl bodyByte done).preambleDone = true := by
          have kept : ∀ (data : Bytes) (scanner : IntelHexScanner),
              (data.foldl bodyByte scanner).preambleDone = scanner.preambleDone := by
            intro data
            induction data with
            | nil => simp
            | cons c data ih => simp [ih, preambleDone_bodyByte]
          rw [kept]
        rw [first, if_pos other, pending]
        refine ⟨rfl, fun still => ?_, @Short.foldl_bodyByte done short _⟩
        rw [overrun] at still
        cases still
      case isFalse bom =>
        split
        case isTrue complete =>
          rw [first, if_neg bom, if_pos complete]
          exact ⟨rfl, (fun still => by cases still), short⟩
        case isFalse more =>
          rw [first, if_neg bom, if_neg more]
          exact @ih { scanner with preamble := scanner.preamble ++ [b] } possible before short

/-- Data is read byte by byte. -/
theorem feed_eq_foldl {scanner : IntelHexScanner} (short : scanner.Short) (data : Bytes) :
    scanner.feed data = data.foldl feedByte scanner := by
  have body : ∀ (scanner : IntelHexScanner) (data : Bytes), scanner.possible = true → scanner.preambleDone = true →
      scanner.Short → feedBody data.length scanner data = data.foldl feedByte scanner := by
    intro scanner data possible done short
    rw [feedBody_eq_foldl possible short (Nat.le_refl _), foldl_feedByte_of_preambleDone done]
  rw [feed]
  split
  case isTrue overrun => rw [foldl_feedByte_of_not_possible (by simpa using overrun)]
  case isFalse alive =>
    have possible : scanner.possible = true := by simpa using alive
    split
    case isTrue done => exact body scanner data possible done short
    case isFalse before =>
      obtain ⟨split, stopped, short'⟩ := feedPreamble_spec possible (by simpa using before) short data
      rw [split]
      dsimp only
      split
      case isTrue ended =>
        rcases ended with pending | overrun
        · rw [stopped (by simpa using pending)]
          rfl
        · rw [foldl_feedByte_of_not_possible (by simpa using overrun)]
      case isFalse going =>
        obtain ⟨done, possible'⟩ : _ ∧ _ := by simpa using going
        exact body _ _ possible' done short'

theorem short_init : init.Short := Nat.zero_le _

/-- Two pieces are read as one. -/
theorem feed_append (front back : Bytes) : (init.feed front).feed back = init.feed (front ++ back) := by
  have short : (init.feed front).Short := by
    rw [feed_eq_foldl short_init]
    exact short_init.foldl_feedByte front
  rw [feed_eq_foldl short, feed_eq_foldl short_init, feed_eq_foldl short_init, List.foldl_append]

end IntelHexScanner

/-! ### PDF objects -/

namespace PdfObjectScanner

theorem feed_nil (scanner : PdfObjectScanner) : scanner.feed [] = scanner := rfl

theorem feed_append (scanner : PdfObjectScanner) (front back : Bytes) :
    (scanner.feed front).feed back = scanner.feed (front ++ back) :=
  List.foldl_append.symm

theorem feed_of_found {scanner : PdfObjectScanner} (found : scanner.found = true) (data : Bytes) :
    scanner.feed data = scanner := by
  rw [feed]
  induction data with
  | nil => rfl
  | cons b data ih => rw [List.foldl_cons, if_pos found, ih]

end PdfObjectScanner

/-! ### The PDF header -/

/-- The header is found by its own bytes. -/
theorem pdfHeaderAt_iff {before : Option UInt8} {text : Bytes} :
    pdfHeaderAt before text = true ↔
      ∃ read after, text = read ++ after ∧ read.length = pdfHeaderBytes ∧ pdfHeader.Reads read := by
  have plain : pdfHeader.BoundaryFree ∧ pdfHeader.RepetitionFree ∧ pdfHeader.width = pdfHeaderBytes ∧
      pdfHeader.least = pdfHeaderBytes := by
    decide
  obtain ⟨free, unrepeated, width, least⟩ := plain
  rw [pdfHeaderAt, Bool.not_eq_true', List.isEmpty_eq_false_iff, Regex.ends_ne_nil_iff]
  constructor
  · rintro ⟨read, after, split, matched⟩
    have upper := matched.length_le_width unrepeated
    have lower := matched.least_le_length
    exact ⟨read, after, split, by omega, matched.transfer free⟩
  · rintro ⟨read, after, split, _, reads⟩
    exact ⟨read, after, split, reads.transfer free⟩

/-- Whether a header stands at a place is settled by the text up to its end. -/
theorem pdfHeader_occursAt_append (data more : Bytes) {start : Nat} (enough : start + pdfHeaderBytes ≤ data.length) :
    Window.occursAt pdfHeaderAt (data ++ more) start = Window.occursAt pdfHeaderAt data start := by
  rw [Window.occursAt, Window.occursAt, List.drop_append_of_le_length (by omega), Bool.eq_iff_iff, pdfHeaderAt_iff,
    pdfHeaderAt_iff]
  constructor
  · rintro ⟨read, after, split, size, reads⟩
    obtain ⟨rest, own⟩ := List.prefix_of_prefix_length_le ⟨after, split.symm⟩ ⟨more, rfl⟩
      (by rw [List.length_drop, size]; omega)
    exact ⟨read, rest, own.symm, size, reads⟩
  · rintro ⟨read, after, split, size, reads⟩
    exact ⟨read, after ++ more, by rw [split, List.append_assoc], size, reads⟩

theorem pdfHeader_occurs_inside {data : Bytes} {start : Nat} (inside : start ≤ data.length)
    (occurs : Window.occursAt pdfHeaderAt data start = true) : start + pdfHeaderBytes ≤ data.length := by
  obtain ⟨read, after, split, size, -⟩ := pdfHeaderAt_iff.mp occurs
  have lengths := congrArg List.length split
  simp only [List.length_drop, List.length_append] at lengths
  omega

theorem pdfHeaderEnd_le {probe : Bytes} {headerEnd : Nat} (found : pdfHeaderEnd probe = some headerEnd) :
    headerEnd ≤ probe.length := by
  obtain ⟨start, first, inWindow⟩ := Option.bind_eq_some_iff.mp found
  obtain ⟨_, inside, occurs, _⟩ := Window.search_eq_some_iff.mp first
  split at inWindow
  · cases inWindow
    exact pdfHeader_occurs_inside inside occurs
  · cases inWindow

/-- The first header stays the first when more is read. -/
theorem pdfHeaderEnd_append {probe : Bytes} {headerEnd : Nat} (found : pdfHeaderEnd probe = some headerEnd)
    (more : Bytes) : pdfHeaderEnd (probe ++ more) = some headerEnd := by
  obtain ⟨start, first, inWindow⟩ := Option.bind_eq_some_iff.mp found
  obtain ⟨low, inside, occurs, earliest⟩ := Window.search_eq_some_iff.mp first
  have enough := pdfHeader_occurs_inside inside occurs
  have first' : Window.search pdfHeaderAt (probe ++ more) 0 = some start := by
    refine Window.search_eq_some_iff.mpr ⟨low, by rw [List.length_append]; omega, ?_, fun earlier le lt => ?_⟩
    · rw [pdfHeader_occursAt_append probe more enough]
      exact occurs
    · rw [pdfHeader_occursAt_append probe more (by omega)]
      exact earliest earlier le lt
  rw [pdfHeaderEnd, first']
  exact inWindow

end ExitfyCores.Bundle
