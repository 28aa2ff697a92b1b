/-
Module: ExitfyCores.Proofs.IntelHexGrammar
Layer: Proofs
Purpose: The scanner for Intel HEX accepts a grammar of lines, however the stream is cut into chunks.
Imports: ExitfyCores.Proofs.PayloadScanners
Trusted boundary: human-reviewed spec of `IsIntelHex`
Main exports: IsIntelHex, closeBody_foldl, acceptsIntelHex
Open obligations: none
-/
import ExitfyCores.Proofs.PayloadScanners

namespace ExitfyCores.Bundle.IntelHexScanner

/-! ### The grammar -/

/-- A stream without the byte order mark at its start. -/
def stripBom (data : Bytes) : Bytes := if utf8Bom.isPrefixOf data then data.drop utf8Bom.length else data

/-- The lines of a stream. -/
def lines (data : Bytes) : List Bytes := (stripBom data).splitOnP isLineEnd

/-- A line with nothing on it but blanks, or a comment. -/
def Skipped (line : Bytes) : Prop :=
  strip line = [] ∨ (strip line).head? = some (byte ';') ∨ (strip line).head? = some (byte '#')

instance (line : Bytes) : Decidable (Skipped line) := inferInstanceAs (Decidable (_ ∨ _))

/-- The type of the record on a line. -/
def recordType (line : Bytes) : Option Nat := if Skipped line then none else intelHexRecordType (strip line)

/-- The types of the records, in their order. -/
def recordTypes (lines : List Bytes) : List Nat := lines.filterMap recordType

/-- A line that may occur. -/
def Readable (line : Bytes) : Prop :=
  line.length ≤ maxIntelHexLineBytes ∧ (Skipped line ∨ (intelHexRecordType (strip line)).isSome)

/-- Intel HEX: lines that are not too long, each blank, a comment or a record; at least two records, one of them the
end of the file, and none behind that. -/
structure IsIntelHex (data : Bytes) : Prop where
  readable : ∀ line ∈ lines data, Readable line
  records : 2 ≤ (recordTypes (lines data)).length
  oneEof : (recordTypes (lines data)).count 1 = 1
  eofLast : (recordTypes (lines data)).getLast? = some 1

/-! ### Line by line -/

/-- The last line, which nothing terminates. -/
def closeBody (scanner : IntelHexScanner) : IntelHexScanner :=
  if scanner.possible then scanner.finishLine else scanner

/-- One line. -/
def takeLine (scanner : IntelHexScanner) (line : Bytes) : IntelHexScanner :=
  if ¬ scanner.possible then scanner
  else if maxIntelHexLineBytes < line.length then scanner.dead
  else finishLine { scanner with line := line }

theorem foldl_takeLine_of_not_possible {scanner : IntelHexScanner} (overrun : scanner.possible = false)
    (lines : List Bytes) : lines.foldl takeLine scanner = scanner := by
  induction lines with
  | nil => rfl
  | cons line lines ih =>
      have still : scanner.takeLine line = scanner := by simp [takeLine, overrun]
      rw [List.foldl_cons, still, ih]

/-- A line that is too long already is too long. -/
theorem foldl_takeLine_long {scanner : IntelHexScanner} (possible : scanner.possible = true) (data : Bytes)
    {line : Bytes} (plain : ∀ b ∈ line, isLineEnd b = false) (long : maxIntelHexLineBytes < line.length) :
    ((line ++ data).splitOnP isLineEnd).foldl takeLine scanner = scanner.dead := by
  have rejected : scanner.takeLine line = scanner.dead := by simp [takeLine, possible, long]
  induction data generalizing line with
  | nil =>
      rw [List.append_nil, List.splitOnP_eq_singleton plain]
      simpa using rejected
  | cons b data ih =>
      cases terminator : isLineEnd b with
      | true =>
          rw [List.splitOnP_append_cons_of_forall_mem plain b terminator, List.foldl_cons, rejected,
            foldl_takeLine_of_not_possible rfl]
      | false =>
          have longer : maxIntelHexLineBytes < (line ++ [b]).length := by
            rw [List.length_append]
            omega
          have whole : line ++ b :: data = (line ++ [b]) ++ data := by simp
          rw [whole]
          refine ih ?_ longer (by simp [takeLine, possible]; omega)
          simpa [or_imp, forall_and] using ⟨plain, terminator⟩

/-- Reading bytes and closing the body is reading lines. -/
theorem closeBody_foldl {scanner : IntelHexScanner} (possible : scanner.possible = true) (short : scanner.Short)
    (plain : ∀ b ∈ scanner.line, isLineEnd b = false) (data : Bytes) :
    closeBody (data.foldl bodyByte scanner) =
      ((scanner.line ++ data).splitOnP isLineEnd).foldl takeLine { scanner with line := [] } := by
  have own : takeLine { scanner with line := [] } scanner.line = scanner.finishLine := by
    rw [takeLine, if_neg (by simp [possible]), if_neg (Nat.not_lt.mpr short)]
  induction data generalizing scanner with
  | nil =>
      rw [List.append_nil, List.splitOnP_eq_singleton plain, List.foldl_nil, closeBody, if_pos possible]
      exact own.symm
  | cons b data ih =>
      rw [List.foldl_cons, bodyByte, if_neg (by simp [possible])]
      split
      case isTrue terminator =>
        rw [List.splitOnP_append_cons_of_forall_mem plain b terminator, List.foldl_cons, own]
        have empty : scanner.finishLine.line = [] := line_finishLine scanner
        cases alive : scanner.finishLine.possible with
        | true =>
            have step := ih alive (Short.finishLine scanner) (by simp [empty])
              (by rw [takeLine, if_neg (by simp [alive]), if_neg (Nat.not_lt.mpr (Short.finishLine scanner))])
            have same : { scanner.finishLine with line := [] } = scanner.finishLine := by rw [← empty]
            rw [step, empty, same, List.nil_append]
        | false =>
            rw [foldl_bodyByte_of_not_possible alive, foldl_takeLine_of_not_possible alive, closeBody,
              if_neg (by simp [alive])]
      case isFalse other =>
        have plain' : ∀ c ∈ scanner.line ++ [b], isLineEnd c = false := by
          simpa [or_imp, forall_and] using ⟨plain, by simpa using other⟩
        have whole : scanner.line ++ b :: data = (scanner.line ++ [b]) ++ data := by simp
        split
        case isTrue full =>
          rw [foldl_bodyByte_of_not_possible rfl, whole,
            @foldl_takeLine_long { scanner with line := [] } possible data _ plain' (by simpa using full)]
          rfl
        case isFalse room =>
          have short' : Short { scanner with line := scanner.line ++ [b] } := by
            simpa [Short] using Nat.not_lt.mp room
          rw [whole]
          refine @ih { scanner with line := scanner.line ++ [b] } possible short' plain' ?_
          rw [takeLine, if_neg (by simp [possible]), if_neg (Nat.not_lt.mpr short')]

/-! ### The records -/

/-- No record stands behind the end of the file. -/
def Ordered : Bool → List Nat → Prop
  | _, [] => True
  | eof, type :: types => eof = false ∧ Ordered (type == 1) types

/-- The last record is the end of the file. -/
def endsWithEof (eof : Bool) (types : List Nat) : Bool := (types.getLast?.map (· == 1)).getD eof

theorem endsWithEof_cons (eof : Bool) (type : Nat) (types : List Nat) :
    endsWithEof eof (type :: types) = endsWithEof (type == 1) types := by
  rw [endsWithEof, endsWithEof, List.getLast?_cons]
  cases types.getLast? with
  | none => rfl
  | some last => rfl

theorem takeLine_skipped {scanner : IntelHexScanner} (possible : scanner.possible = true) {line : Bytes}
    (fits : line.length ≤ maxIntelHexLineBytes) (skipped : Skipped line) :
    scanner.takeLine line = { scanner with line := [] } := by
  rw [takeLine, if_neg (by simp [possible]), if_neg (Nat.not_lt.mpr fits), finishLine]
  exact if_pos skipped

theorem takeLine_record {scanner : IntelHexScanner} (possible : scanner.possible = true) {line : Bytes}
    (fits : line.length ≤ maxIntelHexLineBytes) (other : ¬ Skipped line) {type : Nat}
    (record : intelHexRecordType (strip line) = some type) :
    scanner.takeLine line =
      if scanner.eofSeen then scanner.dead
      else { scanner with line := [], records := scanner.records + 1, eofSeen := type == 1 } := by
  rw [takeLine, if_neg (by simp [possible]), if_neg (Nat.not_lt.mpr fits), finishLine]
  refine (if_neg other).trans ?_
  simp only [record]
  rfl

theorem takeLine_unreadable {scanner : IntelHexScanner} (possible : scanner.possible = true) {line : Bytes}
    (unreadable : ¬ Readable line) : (scanner.takeLine line).possible = false := by
  rw [takeLine, if_neg (by simp [possible])]
  split
  case isTrue => rfl
  case isFalse fits =>
    obtain ⟨other, record⟩ : ¬ Skipped line ∧ intelHexRecordType (strip line) = none := by
      simpa [Readable, Nat.not_lt.mp fits] using unreadable
    have result : finishLine { scanner with line := line } = { scanner with line := [], possible := false } := by
      rw [finishLine]
      refine (if_neg other).trans ?_
      simp only [record]
    rw [result]

/-- What a scanner says after some lines. -/
theorem foldl_takeLine {scanner : IntelHexScanner} (possible : scanner.possible = true) (empty : scanner.line = [])
    (lines : List Bytes) :
    ((lines.foldl takeLine scanner).possible = true ↔
        (∀ line ∈ lines, Readable line) ∧ Ordered scanner.eofSeen (recordTypes lines)) ∧
      ((lines.foldl takeLine scanner).possible = true →
        (lines.foldl takeLine scanner).records = scanner.records + (recordTypes lines).length ∧
          (lines.foldl takeLine scanner).eofSeen = endsWithEof scanner.eofSeen (recordTypes lines)) := by
  induction lines generalizing scanner with
  | nil => simp [possible, recordTypes, Ordered, endsWithEof]
  | cons line lines ih =>
      rw [List.foldl_cons]
      by_cases readable : Readable line
      case neg =>
        have overrun := takeLine_unreadable possible readable
        rw [foldl_takeLine_of_not_possible overrun]
        simp [overrun, readable]
      case pos =>
        obtain ⟨fits, kind⟩ := readable
        by_cases skipped : Skipped line
        case pos =>
          have types : recordTypes (line :: lines) = recordTypes lines := by simp [recordTypes, recordType, skipped]
          have same : scanner.takeLine line = scanner := by rw [takeLine_skipped possible fits skipped, ← empty]
          rw [same, types]
          simpa [Readable, fits, skipped] using ih possible empty
        case neg =>
          obtain ⟨type, record⟩ := Option.isSome_iff_exists.mp (kind.resolve_left skipped)
          have types : recordTypes (line :: lines) = type :: recordTypes lines := by
            simp [recordTypes, recordType, skipped, record]
          rw [takeLine_record possible fits skipped record, types]
          cases eof : scanner.eofSeen with
          | true =>
              rw [if_pos rfl, foldl_takeLine_of_not_possible rfl]
              simp [dead, Ordered]
          | false =>
              rw [if_neg Bool.false_ne_true]
              obtain ⟨accepted, state⟩ :=
                @ih { scanner with line := [], records := scanner.records + 1, eofSeen := type == 1 } possible rfl
              refine ⟨?_, fun alive => ?_⟩
              · rw [accepted]
                simp [Ordered, Readable, fits, skipped, record]
              · obtain ⟨records, seen⟩ := state alive
                refine ⟨?_, by rw [seen, endsWithEof_cons]⟩
                rw [records, List.length_cons]
                exact Nat.succ_add_eq_add_succ ..

/-- One end of the file, behind which there is no record. -/
theorem ordered_and_endsWithEof_iff (types : List Nat) :
    Ordered false types ∧ endsWithEof false types = true ↔ types.count 1 = 1 ∧ types.getLast? = some 1 := by
  induction types with
  | nil => simp [endsWithEof]
  | cons type types ih =>
      rw [endsWithEof_cons, Ordered]
      cases types with
      | nil => by_cases eof : type = 1 <;> simp [Ordered, endsWithEof, eof]
      | cons other rest =>
          rw [List.getLast?_cons_cons]
          by_cases eof : type = 1
          case pos =>
            subst eof
            have never : ¬ ((other :: rest).count 1 = 0 ∧ (other :: rest).getLast? = some 1) := by
              intro ⟨absent, last⟩
              exact List.count_eq_zero.mp absent (List.mem_of_getLast? last)
            simpa [Ordered] using never
          case neg =>
            have plain : (type == 1) = false := by simpa using eof
            rw [plain, List.count_cons_of_ne eof]
            simpa using ih

/-! ### The byte order mark -/

/-- A scanner behind the preamble. -/
def start : IntelHexScanner := { init with preambleDone := true }

theorem finish_of_preambleDone {scanner : IntelHexScanner} (done : scanner.preambleDone = true) :
    scanner.finish = ((closeBody scanner).possible && (closeBody scanner).eofSeen && 2 ≤ (closeBody scanner).records) := by
  have closed : (if scanner.possible ∧ scanner.line ≠ [] then scanner.finishLine else scanner) = closeBody scanner := by
    rw [closeBody]
    by_cases empty : scanner.line = []
    · have nothing : scanner.finishLine = scanner := by
        rw [finishLine]
        refine (if_pos (Or.inl (by rw [empty]; rfl))).trans ?_
        rw [← empty]
      simp [empty, nothing]
    · simp [empty]
  rw [finish]
  simp only [done, not_true_eq_false, and_false, if_false, closed]

theorem preambleDone_foldl_bodyByte (scanner : IntelHexScanner) (data : Bytes) :
    (data.foldl bodyByte scanner).preambleDone = scanner.preambleDone := by
  induction data generalizing scanner with
  | nil => rfl
  | cons b data ih => rw [List.foldl_cons, ih, preambleDone_bodyByte]

/-- Bytes that may still become a byte order mark are kept; otherwise they are the start of the body. -/
theorem finish_preamble {held : Bytes} (partial_bom : held.isPrefixOf utf8Bom = true)
    (short : held.length < utf8Bom.length) (data : Bytes) :
    (data.foldl feedByte { init with preamble := held }).finish =
      ((stripBom (held ++ data)).foldl bodyByte start).finish := by
  induction data generalizing held with
  | nil =>
      have whole : stripBom held = held := by
        rw [stripBom, if_neg]
        intro complete
        have := (List.isPrefixOf_iff_prefix.mp complete).length_le
        omega
      have pending : feedBody held.length start held = held.foldl bodyByte start :=
        @feedBody_eq_foldl _ start rfl short_init _ (Nat.le_refl _)
      rw [List.append_nil, List.foldl_nil, whole, ← pending]
      have done : (feedBody held.length start held).preambleDone = true := by
        rw [pending, preambleDone_foldl_bodyByte]
        rfl
      simp only [finish, done, not_true_eq_false, and_false, if_false]
      rfl
  | cons b data ih =>
      have first : feedByte { init with preamble := held } b =
          if ¬ (held ++ [b]).isPrefixOf utf8Bom then (held ++ [b]).foldl bodyByte start
          else if (held ++ [b]).length = utf8Bom.length then start
          else { init with preamble := held ++ [b] } := rfl
      have whole : held ++ b :: data = (held ++ [b]) ++ data := by simp
      rw [List.foldl_cons, first, whole]
      split
      case isTrue other =>
        have plain : stripBom ((held ++ [b]) ++ data) = (held ++ [b]) ++ data := by
          rw [stripBom, if_neg]
          intro complete
          have short' : (held ++ [b]).length ≤ utf8Bom.length := by
            rw [List.length_append]
            exact short
          exact other (List.isPrefixOf_iff_prefix.mpr
            (List.prefix_of_prefix_length_le ⟨data, rfl⟩ (List.isPrefixOf_iff_prefix.mp complete) short'))
        rw [plain, foldl_feedByte_of_preambleDone (preambleDone_foldl_bodyByte start _), ← List.foldl_append]
      case isFalse bom =>
        have isPrefix : held ++ [b] <+: utf8Bom := by simpa using bom
        split
        case isTrue complete =>
          have same : held ++ [b] = utf8Bom := isPrefix.eq_of_length complete
          have rest : stripBom (utf8Bom ++ data) = data := by
            rw [stripBom, if_pos (by simp), List.drop_left]
          rw [same, rest, foldl_feedByte_of_preambleDone rfl]
        case isFalse incomplete =>
          exact ih (List.isPrefixOf_iff_prefix.mpr isPrefix)
            (Nat.lt_of_le_of_ne isPrefix.length_le incomplete)

/-! ### Acceptance -/

theorem foldl_feed (chunks : List Bytes) : chunks.foldl feed init = init.feed chunks.flatten := by
  have loop : ∀ (chunks : List Bytes) (done : Bytes),
      chunks.foldl feed (init.feed done) = init.feed (done ++ chunks.flatten) := by
    intro chunks
    induction chunks with
    | nil => simp
    | cons chunk chunks ih => simp [feed_append, ih]
  exact loop chunks []

/-- The scanner accepts exactly Intel HEX, however the stream is cut. -/
theorem acceptsIntelHex (chunks : List Bytes) :
    (chunks.foldl feed init).finish = true ↔ IsIntelHex chunks.flatten := by
  let body := stripBom chunks.flatten
  have closed : closeBody (body.foldl bodyByte start) = (body.splitOnP isLineEnd).foldl takeLine start :=
    @closeBody_foldl start rfl short_init (fun _ member => by cases member) body
  have read : (chunks.foldl feed init).finish = (body.foldl bodyByte start).finish := by
    rw [foldl_feed, feed_eq_foldl short_init]
    exact finish_preamble  rfl (by decide) chunks.flatten
  obtain ⟨accepted, state⟩ := @foldl_takeLine start rfl rfl (body.splitOnP isLineEnd)
  rw [read, finish_of_preambleDone (preambleDone_foldl_bodyByte start body), closed]
  simp only [Bool.and_eq_true, decide_eq_true_eq]
  constructor
  · intro ⟨⟨possible, eof⟩, records⟩
    obtain ⟨count, seen⟩ := state possible
    obtain ⟨readable, ordered⟩ := accepted.mp possible
    obtain ⟨oneEof, eofLast⟩ := (ordered_and_endsWithEof_iff _).mp ⟨ordered, seen ▸ eof⟩
    exact ⟨readable, (count.trans (Nat.zero_add _)) ▸ records, oneEof, eofLast⟩
  · intro ⟨readable, records, oneEof, eofLast⟩
    obtain ⟨ordered, eof⟩ := (ordered_and_endsWithEof_iff _).mpr ⟨oneEof, eofLast⟩
    have possible := accepted.mpr ⟨readable, ordered⟩
    obtain ⟨count, seen⟩ := state possible
    exact ⟨⟨possible, seen.trans eof⟩, (count.trans (Nat.zero_add _)).symm ▸ records⟩

end ExitfyCores.Bundle.IntelHexScanner
