/-
Module: ExitfyCores.Proofs.PayloadScan
Layer: Proofs
Purpose: The payload scan does not depend on how the reader cuts the payload: whatever the chunks are, its answers are
  those of a look at the whole.
Imports: ExitfyCores.Proofs.PayloadScanners, Mathlib.Data.List.Infix
Trusted boundary: none
Main exports: wholeAudit, Scanned, scanMemberPayload_eq, streamedPayload
Open obligations: none
-/
import ExitfyCores.Proofs.PayloadScanners
import Mathlib.Data.List.Infix

namespace ExitfyCores.Bundle

/-! ### A look at the whole payload -/

/-- The scanner for PDF objects behind the header of a payload. -/
def pdfObjects (payload : Bytes) : Option PdfObjectScanner :=
  (pdfHeaderEnd (payload.take magicProbeBytes)).map fun headerEnd =>
    PdfObjectScanner.init.feed (payload.drop headerEnd)

/-- A client reference occurs. -/
def referenced (payload : Bytes) : Bool :=
  forbiddenBytes.any fun forbidden => containsBytes (forbidden.map lowerByte) (payload.map lowerByte)

/-- What is to be said about a payload that has the size of its member. -/
def wholeAudit (sha256 : Bytes → String) (payload : Bytes) (binaryAllowed : Bool) : ContentAudit :=
  { bytesRead := payload.length
    exactSize := true
    forbiddenMagic :=
      hasForbiddenBinaryMagic (payload.take magicProbeBytes) ||
        hasStructuredPdf (payload.take magicProbeBytes) ((pdfObjects payload).any (·.found))
          (Window.last pdfTrailerWindowBytes payload) ||
        (IntelHexScanner.init.feed payload).finish
    sha256 := if binaryAllowed then some (sha256 payload) else none
    hasNul := !binaryAllowed && payload.contains 0
    validUTF8 := binaryAllowed || (Py.decodeUtf8 false payload).isSome
    forbiddenReference := referenced payload
    localHostPath := containsLocalHostPath payload
    gitLfsPointer := gitLfsPointerHeader.isPrefixOf (payload.take magicProbeBytes) }

theorem containsBytes_iff {needle data : Bytes} : containsBytes needle data = true ↔ needle <:+: data := by
  simp only [containsBytes, List.any_eq_true, List.mem_tails, List.isPrefixOf_iff_prefix,
    List.infix_iff_prefix_suffix, and_comm]

theorem referenced_iff {payload : Bytes} :
    referenced payload = true ↔
      ∃ forbidden ∈ forbiddenBytes, forbidden.map lowerByte <:+: payload.map lowerByte := by
  simp [referenced, containsBytes_iff]

/-! ### What has been read so far -/

/-- An occurrence of a host path that starts far enough before the end of what was read. -/
def SafeHostPath (done : Bytes) : Prop :=
  ∃ pattern ∈ homePaths, ∃ start, start + contentScanOverlapBytes < done.length ∧
    Window.occursAt (homePathAt pattern) done start = true

/-- The decoder after some bytes, unless they are no text. -/
def decoded (done : Bytes) : Option Py.Utf8 := done.foldlM (Py.Utf8.feed false) (.at [])

/-- The variables of the scan when `done` has been read: apart from the place that the scanner for PDF objects has
reached when it has found something, they are determined by `done`. -/
structure Scanned (size : Nat) (binaryAllowed : Bool) (done : Bytes) (scan : PayloadScan) : Prop where
  remaining : scan.remaining = size - done.length
  bytesRead : scan.bytesRead = done.length
  magicProbe : scan.magicProbe = done.take magicProbeBytes
  scanTail : scan.scanTail = Window.last (contentScanOverlapBytes + 1) done
  pdfTail : scan.pdfTail = Window.last pdfTrailerWindowBytes done
  objects : scan.pdfObjectScanner = pdfObjects done
  seen : ∀ scanner ∈ scan.pdfObjectScanner, scanner.found = false → scan.pdfScannedBytes = done.length
  intelHex : scan.intelHex = IntelHexScanner.init.feed done
  digested : scan.digested = if binaryAllowed then some done else none
  hasNul : scan.hasNul = (!binaryAllowed && done.contains 0)
  forbiddenReference : scan.forbiddenReference = referenced done
  localHostPath : scan.localHostPath = true ↔ SafeHostPath done
  decoder : scan.decoder = if binaryAllowed then none else decoded done
  validUTF8 : scan.validUTF8 = (binaryAllowed || (decoded done).isSome)

theorem scanned_init (size : Nat) (binaryAllowed : Bool) :
    Scanned size binaryAllowed [] (.init size binaryAllowed) where
  remaining := rfl
  bytesRead := rfl
  magicProbe := rfl
  scanTail := rfl
  pdfTail := rfl
  objects := rfl
  seen := by simp [PayloadScan.init]
  intelHex := rfl
  digested := rfl
  hasNul := by simp [PayloadScan.init]
  forbiddenReference := show false = referenced [] by decide
  localHostPath := by simp [PayloadScan.init, SafeHostPath]
  decoder := rfl
  validUTF8 := by simp [PayloadScan.init, decoded]

/-! ### PDF objects -/

/-- Between the two parts of a pass that concern PDF objects, the scanner has seen the bytes up to some place of the
chunk. -/
def PdfProgress (done chunk : Bytes) (objects : Option PdfObjectScanner) (scanned : Nat) : Prop :=
  match pdfHeaderEnd ((done ++ chunk).take magicProbeBytes) with
  | none => objects = none
  | some headerEnd =>
      ∃ place, headerEnd ≤ place ∧ done.length ≤ place ∧ place ≤ (done ++ chunk).length ∧
        objects = some (PdfObjectScanner.init.feed (((done ++ chunk).take place).drop headerEnd)) ∧
          (∀ scanner ∈ objects, scanner.found = false → max scanned done.length = place)

theorem headerEnd_le {payload : Bytes} {headerEnd : Nat}
    (found : pdfHeaderEnd (payload.take magicProbeBytes) = some headerEnd) : headerEnd ≤ payload.length := by
  have := pdfHeaderEnd_le found
  rw [List.length_take] at this
  omega

/-- A header that was found is the one that is found later. -/
theorem pdfHeaderEnd_take_append {done : Bytes} {headerEnd : Nat}
    (found : pdfHeaderEnd (done.take magicProbeBytes) = some headerEnd) (chunk : Bytes) :
    pdfHeaderEnd ((done ++ chunk).take magicProbeBytes) = some headerEnd := by
  rw [List.take_append]
  exact pdfHeaderEnd_append found _

/-- The scanner stays where it was when no new header is found. -/
theorem pdfProgress_of_objects {done chunk : Bytes} {objects : Option PdfObjectScanner} {scanned : Nat}
    (known : objects = pdfObjects done) (seen : ∀ scanner ∈ objects, scanner.found = false → scanned = done.length)
    (settled : objects = none → pdfHeaderEnd ((done ++ chunk).take magicProbeBytes) = none) :
    PdfProgress done chunk objects scanned := by
  cases first : pdfHeaderEnd (done.take magicProbeBytes) with
  | none =>
      have nothing : objects = none := by simp [known, pdfObjects, first]
      simpa [PdfProgress, settled nothing] using nothing
  | some headerEnd =>
      have present : objects = some (PdfObjectScanner.init.feed (done.drop headerEnd)) := by
        simp [known, pdfObjects, first]
      simp only [PdfProgress, pdfHeaderEnd_take_append first chunk]
      refine ⟨done.length, headerEnd_le first, Nat.le_refl _, by simp, ?_, ?_⟩
      · rw [present, List.take_left]
      · intro scanner member looking
        rw [seen scanner member looking, Nat.max_self]

theorem probe_spec {scan : PayloadScan} {done : Bytes} (chunk : Bytes)
    (probe : scan.magicProbe = done.take magicProbeBytes) (objects : scan.pdfObjectScanner = pdfObjects done)
    (seen : ∀ scanner ∈ scan.pdfObjectScanner, scanner.found = false → scan.pdfScannedBytes = done.length) :
    ∃ objects scanned,
      scan.probe chunk =
          { scan with
            magicProbe := (done ++ chunk).take magicProbeBytes
            pdfObjectScanner := objects
            pdfScannedBytes := scanned } ∧
        PdfProgress done chunk objects scanned := by
  by_cases full : magicProbeBytes ≤ done.length
  case pos =>
    have stays : (done ++ chunk).take magicProbeBytes = done.take magicProbeBytes :=
      List.take_append_of_le_length full
    have same : scan.probe chunk = scan := by
      have long : ¬ scan.magicProbe.length < magicProbeBytes := by
        rw [probe, List.length_take]
        omega
      rw [PayloadScan.probe, if_neg long]
    refine ⟨scan.pdfObjectScanner, scan.pdfScannedBytes, ?_, pdfProgress_of_objects objects seen fun nothing => ?_⟩
    · rw [same, stays, ← probe]
    · rw [stays]
      simpa [objects, pdfObjects] using nothing
  case neg =>
    have whole : scan.magicProbe = done := by rw [probe, List.take_of_length_le (by omega)]
    have grown : done ++ chunk.take (magicProbeBytes - done.length) = (done ++ chunk).take magicProbeBytes := by
      rw [List.take_append, @List.take_of_length_le _ _ done (by omega)]
    have room : scan.magicProbe.length < magicProbeBytes := by rw [whole]; omega
    cases header : pdfHeaderEnd ((done ++ chunk).take magicProbeBytes) with
    | none =>
        have next : scan.probe chunk = { scan with magicProbe := (done ++ chunk).take magicProbeBytes } := by
          rw [PayloadScan.probe, if_pos room]
          simp only [whole, grown, header]
        exact ⟨_, _, next, pdfProgress_of_objects objects seen fun _ => header⟩
    | some headerEnd =>
        cases present : scan.pdfObjectScanner with
        | some scanner =>
            have next : scan.probe chunk = { scan with magicProbe := (done ++ chunk).take magicProbeBytes } := by
              rw [PayloadScan.probe, if_pos room]
              simp only [whole, grown, header, present]
            refine ⟨_, _, next, pdfProgress_of_objects objects seen fun nothing => ?_⟩
            rw [present] at nothing
            cases nothing
        | none =>
            have next : scan.probe chunk =
                { scan with
                  magicProbe := (done ++ chunk).take magicProbeBytes
                  pdfObjectScanner := some
                    (PdfObjectScanner.init.feed (((done ++ chunk).take magicProbeBytes).drop headerEnd))
                  pdfScannedBytes := ((done ++ chunk).take magicProbeBytes).length } := by
              rw [PayloadScan.probe, if_pos room]
              simp only [whole, grown, header, present]
            refine ⟨_, _, next, ?_⟩
            have inside := pdfHeaderEnd_le header
            rw [List.length_take] at inside
            simp only [PdfProgress, header]
            refine ⟨((done ++ chunk).take magicProbeBytes).length, ?_, ?_, ?_, ?_, ?_⟩
            · rwa [List.length_take]
            · simp only [List.length_take, List.length_append]
              omega
            · rw [List.length_take]
              omega
            · have own : (done ++ chunk).take ((done ++ chunk).take magicProbeBytes).length =
                  (done ++ chunk).take magicProbeBytes := by
                rw [List.take_eq_take_iff, List.length_take]
                omega
              rw [own]
            · intro _ _ _
              simp only [List.length_take, List.length_append]
              omega

theorem scanPdfObjects_spec {scan : PayloadScan} {done chunk : Bytes} (some_chunk : chunk ≠ [])
    (read : scan.bytesRead = (done ++ chunk).length)
    (progress : PdfProgress done chunk scan.pdfObjectScanner scan.pdfScannedBytes) :
    ∃ scanned,
      scan.scanPdfObjects chunk =
          { scan with pdfObjectScanner := pdfObjects (done ++ chunk), pdfScannedBytes := scanned } ∧
        ∀ scanner ∈ pdfObjects (done ++ chunk), scanner.found = false → scanned = (done ++ chunk).length := by
  cases header : pdfHeaderEnd ((done ++ chunk).take magicProbeBytes) with
  | none =>
      simp only [PdfProgress, header] at progress
      have nothing : pdfObjects (done ++ chunk) = none := by simp [pdfObjects, header]
      have same : scan.scanPdfObjects chunk = scan := by rw [PayloadScan.scanPdfObjects, progress]
      refine ⟨scan.pdfScannedBytes, ?_, by simp [nothing]⟩
      rw [same, nothing, ← progress]
  | some headerEnd =>
      simp only [PdfProgress, header] at progress
      obtain ⟨place, behind, low, high, present, reached⟩ := progress
      have whole : pdfObjects (done ++ chunk) =
          some ((PdfObjectScanner.init.feed (((done ++ chunk).take place).drop headerEnd)).feed
            ((done ++ chunk).drop place)) := by
        have pieces : (done ++ chunk).drop headerEnd =
            ((done ++ chunk).take place).drop headerEnd ++ (done ++ chunk).drop place := by
          conv => lhs; rw [← List.take_append_drop place (done ++ chunk)]
          rw [List.drop_append_of_le_length (by rw [List.length_take]; omega)]
        simp only [pdfObjects, header, Option.map_some, PdfObjectScanner.feed_append, ← pieces]
      rw [whole]
      cases found : (PdfObjectScanner.init.feed (((done ++ chunk).take place).drop headerEnd)).found with
      | true =>
          rw [PdfObjectScanner.feed_of_found found]
          refine ⟨scan.pdfScannedBytes, ?_, ?_⟩
          · have same : scan.scanPdfObjects chunk = scan := by
              rw [PayloadScan.scanPdfObjects, present]
              simp only [found, if_true]
            rw [same, ← present]
          · intro scanner member looking
            cases member
            rw [found] at looking
            cases looking
      | false =>
          have offset : max scan.pdfScannedBytes (scan.bytesRead - chunk.length) = place := by
            have chunkOffset : scan.bytesRead - chunk.length = done.length := by
              rw [read, List.length_append]
              omega
            rw [chunkOffset]
            exact reached _ present found
          by_cases more : place < scan.bytesRead
          case pos =>
            refine ⟨scan.bytesRead, ?_, fun _ _ _ => read⟩
            have rest : chunk.drop (place - (scan.bytesRead - chunk.length)) = (done ++ chunk).drop place := by
              rw [read, List.length_append, Nat.add_sub_cancel]
              conv => rhs; rw [← Nat.add_sub_cancel' low, List.drop_length_add_append]
            rw [PayloadScan.scanPdfObjects, present]
            simp only [found, offset, more, if_true, Bool.false_eq_true, if_false, rest]
          case neg =>
            obtain rfl : place = (done ++ chunk).length := by omega
            refine ⟨scan.pdfScannedBytes, ?_, fun _ _ _ => ?_⟩
            · have same : scan.scanPdfObjects chunk = scan := by
                rw [PayloadScan.scanPdfObjects, present]
                simp only [found, offset, more, if_false, Bool.false_eq_true]
              rw [same, List.drop_length, PdfObjectScanner.feed_nil, ← present]
            · have grows := List.length_pos_iff.mpr some_chunk
              have last := reached _ present found
              rw [List.length_append] at last ⊢
              omega

/-! ### References and host paths -/

theorem forbiddenBytes_short :
    ∀ forbidden ∈ forbiddenBytes, (forbidden.map lowerByte).length ≤ contentScanOverlapBytes + 1 + 1 := by
  decide

/-- A reference lies in what was read before, or in the window. -/
theorem referenced_append (done chunk : Bytes) :
    referenced (done ++ chunk) =
      (referenced done || referenced (Window.last (contentScanOverlapBytes + 1) done ++ chunk)) := by
  rw [Bool.eq_iff_iff, Bool.or_eq_true, referenced_iff, referenced_iff, referenced_iff]
  have parts : ∀ forbidden ∈ forbiddenBytes,
      (forbidden.map lowerByte <:+: (done ++ chunk).map lowerByte ↔
        forbidden.map lowerByte <:+: done.map lowerByte ∨
          forbidden.map lowerByte <:+:
            (Window.last (contentScanOverlapBytes + 1) done ++ chunk).map lowerByte) := by
    intro forbidden member
    rw [List.map_append, List.map_append, Window.map_last]
    exact Window.infix_append_iff (forbiddenBytes_short forbidden member) _ _
  constructor
  · intro ⟨forbidden, member, occurs⟩
    rcases (parts forbidden member).mp occurs with before | inWindow
    · exact Or.inl ⟨forbidden, member, before⟩
    · exact Or.inr ⟨forbidden, member, inWindow⟩
  · intro found
    rcases found with ⟨forbidden, member, before⟩ | ⟨forbidden, member, inWindow⟩
    · exact ⟨forbidden, member, (parts forbidden member).mpr (Or.inl before)⟩
    · exact ⟨forbidden, member, (parts forbidden member).mpr (Or.inr inWindow)⟩

/-- What is no longer in sight has been searched: the first place of the window was judged with all it needs. -/
theorem hostPath_window {done chunk : Bytes} {minimum limit : Nat}
    (start_of_window :
      minimum = if (done ++ chunk).length =
        (Window.last (contentScanOverlapBytes + 1) done ++ chunk).length then 0 else 1)
    (inside : limit ≤ (Window.last (contentScanOverlapBytes + 1) done ++ chunk).length)
    {pattern : Regex UInt8} (member : pattern ∈ homePaths) :
    (∃ start < done.length - (contentScanOverlapBytes + 1) + limit,
        Window.occursAt (homePathAt pattern) (done ++ chunk) start = true) ∨
        (∃ start, start + contentScanOverlapBytes < done.length ∧
          Window.occursAt (homePathAt pattern) done start = true) ↔
      (∃ start, start + contentScanOverlapBytes < done.length ∧
          Window.occursAt (homePathAt pattern) done start = true) ∨
        ∃ start, minimum ≤ start ∧ start < limit ∧
          Window.occursAt (homePathAt pattern) (Window.last (contentScanOverlapBytes + 1) done ++ chunk) start =
            true := by
  let dropped := done.take (done.length - (contentScanOverlapBytes + 1))
  let window := Window.last (contentScanOverlapBytes + 1) done ++ chunk
  have split : done ++ chunk = dropped ++ window := Window.append_eq_window _ done chunk
  have size : dropped.length = done.length - (contentScanOverlapBytes + 1) := by
    rw [List.length_take]
    omega
  have whole : (done ++ chunk).length = window.length ↔ dropped = [] := by
    rw [split, List.length_append, ← List.length_eq_zero_iff]
    omega
  have minimum_eq : minimum = if dropped = [] then 0 else 1 := by
    rw [start_of_window]
    exact if_congr whole rfl rfl
  -- A place in front of the window, or its first, is far from the end of what was read before.
  have early : ∀ start < dropped.length + min minimum limit,
      Window.occursAt (homePathAt pattern) (done ++ chunk) start = true →
        start + contentScanOverlapBytes < done.length ∧ Window.occursAt (homePathAt pattern) done start = true := by
    intro start below occurs
    have far : start + contentScanOverlapBytes < done.length := by
      by_cases nothing : dropped = []
      case pos =>
        rw [if_pos nothing] at minimum_eq
        rw [nothing, List.length_nil] at below
        omega
      case neg =>
        rw [if_neg nothing] at minimum_eq
        have := List.length_pos_iff.mpr nothing
        omega
    exact ⟨far, by rwa [(homePathAt_local member).occursAt_append done chunk far] at occurs⟩
  rw [← size, split, Window.occurs_window_iff minimum_eq inside, ← split]
  constructor
  · intro found
    rcases found with (⟨start, below, occurs⟩ | inWindow) | before
    · exact Or.inl ⟨start, early start below occurs⟩
    · exact Or.inr inWindow
    · exact Or.inl before
  · intro found
    rcases found with before | inWindow
    · exact Or.inr before
    · exact Or.inl (Or.inr inWindow)

theorem length_window (done chunk : Bytes) :
    done.length - (contentScanOverlapBytes + 1) +
        (Window.last (contentScanOverlapBytes + 1) done ++ chunk).length = (done ++ chunk).length := by
  rw [List.length_append, List.length_append, Window.length_last]
  omega

/-- One pass finds the host paths that have come far enough from the end. -/
theorem safeHostPath_append (done chunk : Bytes) :
    SafeHostPath (done ++ chunk) ↔
      SafeHostPath done ∨
        containsLocalHostPathBefore (Window.last (contentScanOverlapBytes + 1) done ++ chunk)
          ((Window.last (contentScanOverlapBytes + 1) done ++ chunk).length - contentScanOverlapBytes)
          (if (done ++ chunk).length = (Window.last (contentScanOverlapBytes + 1) done ++ chunk).length then 0 else 1) =
            true := by
  have size := length_window done chunk
  have window := Window.length_last (contentScanOverlapBytes + 1) done
  have total : (Window.last (contentScanOverlapBytes + 1) done ++ chunk).length =
      (Window.last (contentScanOverlapBytes + 1) done).length + chunk.length := List.length_append
  rw [containsLocalHostPathBefore_iff (Nat.sub_le _ _)]
  constructor
  · intro ⟨pattern, member, start, far, occurs⟩
    rcases (hostPath_window rfl (Nat.sub_le _ contentScanOverlapBytes) member).mp
      (Or.inl ⟨start, by omega, occurs⟩) with before | inWindow
    · exact Or.inl ⟨pattern, member, before⟩
    · exact Or.inr ⟨pattern, member, inWindow⟩
  · intro found
    rcases found with ⟨pattern, member, start, far, occurs⟩ | ⟨pattern, member, inWindow⟩
    · refine ⟨pattern, member, start, by rw [List.length_append]; omega, ?_⟩
      rw [(homePathAt_local member).occursAt_append done chunk far]
      exact occurs
    · rcases (hostPath_window rfl (Nat.sub_le _ contentScanOverlapBytes) member).mpr (Or.inr inWindow) with
        ⟨start, below, occurs⟩ | ⟨start, far, occurs⟩
      · exact ⟨pattern, member, start, by omega, occurs⟩
      · refine ⟨pattern, member, start, by rw [List.length_append]; omega, ?_⟩
        rw [(homePathAt_local member).occursAt_append done chunk far]
        exact occurs

/-- The last look finds the others. -/
theorem containsLocalHostPath_tail (payload : Bytes) :
    containsLocalHostPath payload = true ↔
      SafeHostPath payload ∨
        containsLocalHostPathBefore (Window.last (contentScanOverlapBytes + 1) payload)
          (Window.last (contentScanOverlapBytes + 1) payload).length
          (if payload.length = (Window.last (contentScanOverlapBytes + 1) payload).length then 0 else 1) = true := by
  have size := length_window payload []
  have step := fun {pattern : Regex UInt8} (member : pattern ∈ homePaths) =>
    @hostPath_window payload [] _ _ rfl (Nat.le_refl _) pattern member
  rw [size] at step
  simp only [List.append_nil] at step
  rw [containsLocalHostPathBefore_iff (Nat.le_refl _), containsLocalHostPath_iff]
  constructor
  · intro ⟨pattern, member, start, _, occurs⟩
    have inside := (homePathAt_consuming member).lt occurs
    rcases (step member).mp (Or.inl ⟨start, inside, occurs⟩) with before | inTail
    · exact Or.inl ⟨pattern, member, before⟩
    · exact Or.inr ⟨pattern, member, inTail⟩
  · intro found
    rcases found with ⟨pattern, member, start, far, occurs⟩ | ⟨pattern, member, inTail⟩
    · exact ⟨pattern, member, start, by omega, occurs⟩
    · rcases (step member).mpr (Or.inr inTail) with ⟨start, below, occurs⟩ | ⟨start, far, occurs⟩
      · exact ⟨pattern, member, start, by omega, occurs⟩
      · exact ⟨pattern, member, start, by omega, occurs⟩

/-! ### Text -/

theorem decodeChunk_spec {scan : PayloadScan} {done : Bytes} (chunk : Bytes) (decoder : scan.decoder = decoded done)
    (valid : scan.validUTF8 = (decoded done).isSome) :
    scan.decodeChunk chunk =
      { scan with decoder := decoded (done ++ chunk), validUTF8 := (decoded (done ++ chunk)).isSome } := by
  have next : decoded (done ++ chunk) = (decoded done).bind fun state => chunk.foldlM (Py.Utf8.feed false) state := by
    rw [decoded, List.foldlM_append]
    rfl
  cases before : decoded done with
  | none =>
      rw [before] at decoder next valid
      simp only [PayloadScan.decodeChunk, decoder, next, Option.bind_none]
      cases scan
      simp_all
  | some state =>
      rw [before] at decoder next valid
      rw [PayloadScan.decodeChunk, decoder, next, Option.bind_some]
      dsimp only
      cases chunk.foldlM (Py.Utf8.feed false) state with
      | none => rfl
      | some state' =>
          rw [Option.isSome_some] at valid ⊢
          rw [← valid]

/-! ### The run -/

/-- One pass of the loop. -/
theorem Scanned.step {size : Nat} {binaryAllowed : Bool} {done chunk : Bytes} {scan : PayloadScan}
    (scanned : Scanned size binaryAllowed done scan) (some_chunk : chunk ≠ []) :
    Scanned size binaryAllowed (done ++ chunk) (scan.step binaryAllowed chunk) := by
  let counted : PayloadScan :=
    { scan with
      remaining := scan.remaining - chunk.length
      bytesRead := scan.bytesRead + chunk.length
      digested := scan.digested.map (· ++ chunk) }
  obtain ⟨objects, place, probed, progress⟩ :=
    @probe_spec counted done chunk scanned.magicProbe scanned.objects scanned.seen
  let fed : PayloadScan :=
    { counted with
      magicProbe := (done ++ chunk).take magicProbeBytes
      pdfObjectScanner := objects
      pdfScannedBytes := place
      pdfTail := Window.last pdfTrailerWindowBytes (scan.pdfTail ++ chunk)
      intelHex := scan.intelHex.feed chunk }
  have read : scan.bytesRead + chunk.length = (done ++ chunk).length := by
    rw [List.length_append, ← scanned.bytesRead]
  obtain ⟨place', searched, seen⟩ := @scanPdfObjects_spec fed done chunk some_chunk read progress
  let windowed : PayloadScan :=
    PayloadScan.scanWindow
      { fed with pdfObjectScanner := pdfObjects (done ++ chunk), pdfScannedBytes := place' } chunk
  have stepped : scan.step binaryAllowed chunk =
      if binaryAllowed then windowed
      else PayloadScan.decodeChunk { windowed with hasNul := windowed.hasNul || chunk.contains 0 } chunk := by
    have passed : ({ counted.probe chunk with
        pdfTail := Window.last pdfTrailerWindowBytes ((counted.probe chunk).pdfTail ++ chunk)
        intelHex := (counted.probe chunk).intelHex.feed chunk } : PayloadScan) = fed := by
      rw [probed]
    rw [PayloadScan.step, passed, searched]
  have window : fed.scanTail = Window.last (contentScanOverlapBytes + 1) done := scanned.scanTail
  have left : windowed.remaining = size - (done ++ chunk).length := by
    have own : windowed.remaining = scan.remaining - chunk.length := rfl
    rw [own, scanned.remaining, List.length_append]
    omega
  have pdfTail : windowed.pdfTail = Window.last pdfTrailerWindowBytes (done ++ chunk) := by
    have own : windowed.pdfTail = Window.last pdfTrailerWindowBytes (scan.pdfTail ++ chunk) := by
      simp only [windowed, fed, PayloadScan.scanWindow]
    rw [own, scanned.pdfTail, Window.last_append_last (Nat.le_refl _)]
  have scanTail : windowed.scanTail = Window.last (contentScanOverlapBytes + 1) (done ++ chunk) := by
    have own : windowed.scanTail = Window.last (contentScanOverlapBytes + 1) (scan.scanTail ++ chunk) := by
      simp only [windowed, fed, counted, PayloadScan.scanWindow]
    rw [own, scanned.scanTail, Window.last_append_last (Nat.le_refl _)]
  have intelHex : windowed.intelHex = IntelHexScanner.init.feed (done ++ chunk) := by
    rw [← IntelHexScanner.feed_append, ← scanned.intelHex]
    rfl
  have forbidden : windowed.forbiddenReference = referenced (done ++ chunk) := by
    rw [referenced_append, ← window, ← scanned.forbiddenReference]
    rfl
  have hostPath : windowed.localHostPath = true ↔ SafeHostPath (done ++ chunk) := by
    rw [safeHostPath_append, ← scanned.localHostPath, ← window, ← Bool.or_eq_true, ← read]
    rfl
  have bytesRead : windowed.bytesRead = (done ++ chunk).length := read
  have magicProbe : windowed.magicProbe = (done ++ chunk).take magicProbeBytes := rfl
  have objects : windowed.pdfObjectScanner = pdfObjects (done ++ chunk) := rfl
  have seen : ∀ scanner ∈ windowed.pdfObjectScanner, scanner.found = false →
      windowed.pdfScannedBytes = (done ++ chunk).length := seen
  have digested : windowed.digested = if binaryAllowed then some (done ++ chunk) else none := by
    have own : windowed.digested = scan.digested.map (· ++ chunk) := rfl
    rw [own, scanned.digested]
    cases binaryAllowed <;> rfl
  have hasNul : windowed.hasNul = (!binaryAllowed && done.contains 0) := scanned.hasNul
  have decoder : windowed.decoder = if binaryAllowed then none else decoded done := scanned.decoder
  have validUTF8 : windowed.validUTF8 = (binaryAllowed || (decoded done).isSome) := scanned.validUTF8
  clear_value windowed
  rw [stepped]
  cases binaryAllowed with
  | true =>
      exact
        { remaining := left
          bytesRead, magicProbe, scanTail, pdfTail, objects, seen, intelHex, digested, hasNul, decoder, validUTF8
          forbiddenReference := forbidden
          localHostPath := hostPath }
  | false =>
      rw [if_neg Bool.false_ne_true,
        @decodeChunk_spec { windowed with hasNul := windowed.hasNul || chunk.contains 0 } done chunk decoder validUTF8]
      exact
        { remaining := left
          bytesRead, magicProbe, scanTail, pdfTail, objects, seen, intelHex, digested
          hasNul := by simp [hasNul]
          forbiddenReference := forbidden
          localHostPath := hostPath
          decoder := rfl
          validUTF8 := rfl }

/-- The loop over non-empty chunks that make up the rest of a payload. -/
theorem run_spec {size : Nat} {binaryAllowed : Bool} {stream : List Bytes} (chunks : ∀ chunk ∈ stream, chunk ≠ [])
    {done : Bytes} {scan : PayloadScan} (scanned : Scanned size binaryAllowed done scan)
    (exact : size = (done ++ stream.flatten).length) :
    ∃ final, scan.run binaryAllowed stream = .ok (final, []) ∧
      Scanned size binaryAllowed (done ++ stream.flatten) final := by
  induction stream generalizing done scan with
  | nil => exact ⟨scan, rfl, by simpa using scanned⟩
  | cons chunk stream ih =>
      have some_chunk := chunks chunk List.mem_cons_self
      have positive := List.length_pos_iff.mpr some_chunk
      rw [List.flatten_cons, ← List.append_assoc] at exact ⊢
      obtain ⟨final, ran, scanned'⟩ := ih (fun other member => chunks other (List.mem_cons_of_mem chunk member))
        (scanned.step some_chunk) exact
      have remaining := scanned.remaining
      simp only [List.length_append] at exact
      refine ⟨final, ?_, scanned'⟩
      rw [PayloadScan.run, if_neg (by omega), if_neg some_chunk, if_neg (by omega), ran]

/-- What is said at the end. -/
theorem Scanned.audit_eq {binaryAllowed : Bool} {payload : Bytes} {scan : PayloadScan} (sha256 : Bytes → String)
    (scanned : Scanned payload.length binaryAllowed payload scan) :
    scan.audit sha256 [] = wholeAudit sha256 payload binaryAllowed := by
  have remaining : scan.remaining = 0 := by rw [scanned.remaining, Nat.sub_self]
  have hostPath : (scan.localHostPath ||
      containsLocalHostPathBefore scan.scanTail scan.scanTail.length
        (if scan.bytesRead = scan.scanTail.length then 0 else 1)) = containsLocalHostPath payload := by
    rw [Bool.eq_iff_iff, Bool.or_eq_true, scanned.localHostPath, containsLocalHostPath_tail, scanned.scanTail,
      scanned.bytesRead]
  have digested : scan.digested.map sha256 = if binaryAllowed then some (sha256 payload) else none := by
    rw [scanned.digested]
    split <;> rfl
  have valid : (scan.validUTF8 && scan.decoder.all (·.missing == 0)) =
      (binaryAllowed || (Py.decodeUtf8 false payload).isSome) := by
    rw [scanned.validUTF8, scanned.decoder]
    cases binaryAllowed with
    | true => rfl
    | false =>
        have whole : Py.decodeUtf8 false payload =
            (decoded payload).bind fun final => if final.missing = 0 then some final.decoded else none := rfl
        rw [whole]
        cases decoded payload with
        | none => rfl
        | some final => by_cases overrun : final.missing = 0 <;> simp [overrun]
  rw [PayloadScan.audit, hostPath, digested, valid, remaining, scanned.bytesRead, scanned.magicProbe, scanned.objects,
    scanned.pdfTail, scanned.intelHex, scanned.hasNul, scanned.forbiddenReference]
  rfl

/-- However the reader cuts a payload, the scan says what a look at the whole says. -/
theorem scanMemberPayload_eq (sha256 : Bytes → String) {stream : List Bytes} (chunks : ∀ chunk ∈ stream, chunk ≠ [])
    (binaryAllowed : Bool) :
    scanMemberPayload sha256 stream stream.flatten.length binaryAllowed =
      .ok (wholeAudit sha256 stream.flatten binaryAllowed) := by
  obtain ⟨final, ran, scanned⟩ := run_spec chunks (scanned_init stream.flatten.length binaryAllowed) rfl
  rw [scanMemberPayload, ran]
  exact congrArg Except.ok (scanned.audit_eq sha256)

/-- The whole payload as one chunk, also where it is empty. -/
theorem scanMemberPayload_singleton (sha256 : Bytes → String) (payload : Bytes) (binaryAllowed : Bool) :
    scanMemberPayload sha256 [payload] payload.length binaryAllowed =
      .ok (wholeAudit sha256 payload binaryAllowed) := by
  cases payload with
  | nil => exact @scanMemberPayload_eq sha256 [] (by simp) binaryAllowed
  | cons b rest =>
      have whole := @scanMemberPayload_eq sha256 [b :: rest] (by simp) binaryAllowed
      simpa using whole

/-- For every payload and every way to cut it, the scan finds a client reference exactly if the payload in lower case
contains one, and a host path exactly if a pattern matches somewhere in the payload, judged by the bytes around it;
where binaries are not allowed, it finds the text valid exactly if the payload decodes and a zero byte exactly if there
is one; and the verdict on binary formats and on pointers is that on the payload in one chunk. -/
theorem streamedPayload (sha256 : Bytes → String) (payload : Bytes) (stream : List Bytes) (binaryAllowed : Bool)
    (chunks : ∀ chunk ∈ stream, chunk ≠ []) (split : stream.flatten = payload) :
    ∃ audit whole,
      scanMemberPayload sha256 stream payload.length binaryAllowed = .ok audit ∧
        scanMemberPayload sha256 [payload] payload.length binaryAllowed = .ok whole ∧
        (audit.forbiddenReference = true ↔
          ∃ forbidden ∈ forbiddenBytes, forbidden.map lowerByte <:+: payload.map lowerByte) ∧
        (audit.localHostPath = true ↔
          ∃ pattern ∈ homePaths, ∃ start ≤ payload.length,
            Window.occursAt (homePathAt pattern) payload start = true) ∧
        (binaryAllowed = false →
          (audit.validUTF8 = true ↔ (Py.decodeUtf8 false payload).isSome) ∧
            (audit.hasNul = true ↔ 0 ∈ payload)) ∧
        audit.forbiddenMagic = whole.forbiddenMagic ∧ audit.gitLfsPointer = whole.gitLfsPointer := by
  subst split
  refine ⟨_, _, scanMemberPayload_eq sha256 chunks binaryAllowed,
    scanMemberPayload_singleton sha256 stream.flatten binaryAllowed, referenced_iff, containsLocalHostPath_iff, ?_,
    rfl, rfl⟩
  intro text
  subst text
  simp [wholeAudit]

/-- A reader that cuts a host path and a character in two. -/
theorem streamedPayload_cut :
    let payload := lit "a /home/b" ++ [0xC3, 0xA9]
    ∃ audit whole,
      scanMemberPayload (fun _ => "") [lit "a /ho", lit "me/b", [0xC3], [0xA9]] payload.length false = .ok audit ∧
        scanMemberPayload (fun _ => "") [payload] payload.length false = .ok whole ∧
        (audit.forbiddenReference = true ↔
          ∃ forbidden ∈ forbiddenBytes, forbidden.map lowerByte <:+: payload.map lowerByte) ∧
        (audit.localHostPath = true ↔
          ∃ pattern ∈ homePaths, ∃ start ≤ payload.length,
            Window.occursAt (homePathAt pattern) payload start = true) ∧
        (false = false →
          (audit.validUTF8 = true ↔ (Py.decodeUtf8 false payload).isSome) ∧
            (audit.hasNul = true ↔ 0 ∈ payload)) ∧
        audit.forbiddenMagic = whole.forbiddenMagic ∧ audit.gitLfsPointer = whole.gitLfsPointer :=
  streamedPayload (fun _ => "") (lit "a /home/b" ++ [0xC3, 0xA9]) [lit "a /ho", lit "me/b", [0xC3], [0xA9]] false
    (by decide) rfl

end ExitfyCores.Bundle
