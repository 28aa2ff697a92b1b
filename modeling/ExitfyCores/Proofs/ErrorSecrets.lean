/-
Module: ExitfyCores.Proofs.ErrorSecrets
Layer: Proofs
Purpose: What `SafeError` lets through of the secrets in a message: nothing behind a credential key, and nothing of the
  secret members of a JSON document, as long as no URI that is still open can swallow the key in front of them. And
  the shape of every text it returns.
Imports: ExitfyCores.Bridge.SafeError, ExitfyCores.Proofs.JsonExact
Trusted boundary: none
Main exports: NoMark, ClosedBefore, SpellsKey, redactURIs_closed, redactURIs_key, redactPlainSecrets_eq,
  sanitize_plainSecret, sanitize_documentSecrets, safeError_fitForLog
Open obligations: none
-/
import ExitfyCores.Bridge.SafeError
import ExitfyCores.Proofs.JsonExact

namespace ExitfyCores.Bridge

open Json

/-- A property of the characters of a text is decided on these alone. -/
local instance decidableAllCharacters {p : Char → Prop} [DecidablePred p] (text : List Char) :
    Decidable (∀ c ∈ text, p c) :=
  List.decidableBAll p text

/-! ### The texts of the patterns -/

/-- Symbols that spell a text of a pattern. -/
def Spells (text : List Char) (read : List Symbol) : Prop := List.Forall₂ (fun c s => foldsTo c s.rune = true) text read

theorem matches_literal {text : String} {before : Option Symbol} {read after : List Symbol} :
    (literal text).Matches before read after ↔ Spells text.toList read := by
  have shape : literal text = .seqs ((text.toList.map fun c s => foldsTo c s.rune).map Regex.sat) := by
    rw [List.map_map]
    rfl
  rw [shape, Regex.matches_seqs_sat, List.forall₂_map_left_iff, Spells]

/-- The schemes of both URI patterns. -/
def schemes : List String :=
  ["vless", "vmess", "trojan", "ss", "hy2", "hysteria", "hysteria2", "tuic", "http", "https"]

/-- A mark of a URI with what is read behind it. -/
def IsTail (read : List Symbol) : Prop :=
  ∃ colon slash other right, read = colon :: slash :: other :: right ∧ colon.rune = ':' ∧ slash.rune = '/' ∧
    other.rune = '/' ∧ ∀ s ∈ right, nonSpaceSymbol s = true

/-- A URI as the patterns read it. -/
def IsURI (scheme : String) (read : List Symbol) : Prop :=
  scheme ∈ schemes ∧ ∃ left tail, read = left ++ tail ∧ Spells scheme.toList left ∧ IsTail tail

theorem foldsTo_colon {r : Char} (folds : foldsTo ':' r = true) : r = ':' := by
  simpa [foldsTo] using folds

theorem foldsTo_slash {r : Char} (folds : foldsTo '/' r = true) : r = '/' := by
  simpa [foldsTo] using folds

theorem schemeURL_matches {scheme : Regex Symbol} {before : Option Symbol} {read after : List Symbol}
    (matched : (schemeURL scheme).Matches before read after) :
    ∃ left tail, read = left ++ tail ∧ scheme.Matches before left (tail ++ after) ∧ IsTail tail := by
  obtain ⟨left, tail, rfl, named, mark, right, rfl, isMark, first, others, rfl, ⟨c, rfl, holds⟩, many⟩ := matched
  refine ⟨left, mark ++ ([c] ++ others), rfl, named, ?_⟩
  rw [matches_literal] at isMark
  cases isMark with
  | cons isColon isMark =>
    cases isMark with
    | cons isSlash isMark =>
      cases isMark with
      | cons isOther ended =>
        cases ended
        refine ⟨_, _, _, c :: others, rfl, foldsTo_colon isColon, foldsTo_slash isSlash, foldsTo_slash isOther, ?_⟩
        intro s member
        rcases List.mem_cons.mp member with rfl | later
        · exact holds
        · exact many s later

theorem httpScheme_spells {before : Option Symbol} {read after : List Symbol}
    (matched : httpScheme.Matches before read after) :
    ∃ scheme ∈ schemes, scheme ≠ "ss" ∧ Spells scheme.toList read := by
  obtain ⟨name, final, rfl, isName, isFinal | isFinal⟩ := matched
  · obtain ⟨c, rfl, folds⟩ := isFinal
    exact ⟨"https", by decide, by decide, List.rel_append (matches_literal.mp isName) (.cons folds .nil)⟩
  · obtain rfl : final = [] := isFinal
    rw [List.append_nil]
    exact ⟨"http", by decide, by decide, matches_literal.mp isName⟩

theorem proxyScheme_spells {before : Option Symbol} {read after : List Symbol}
    (matched : proxyScheme.Matches before read after) : ∃ scheme ∈ schemes, Spells scheme.toList read := by
  obtain ⟨r, member, matched⟩ := Regex.matches_alts.mp matched
  simp only [List.mem_cons, List.not_mem_nil, or_false] at member
  rcases member with rfl | rfl | rfl | rfl | rfl | rfl | rfl
  · exact ⟨"vless", by decide, matches_literal.mp matched⟩
  · exact ⟨"vmess", by decide, matches_literal.mp matched⟩
  · exact ⟨"trojan", by decide, matches_literal.mp matched⟩
  · exact ⟨"ss", by decide, matches_literal.mp matched⟩
  · exact ⟨"hy2", by decide, matches_literal.mp matched⟩
  · obtain ⟨name, final, rfl, isName, isFinal | isFinal⟩ := matched
    · obtain ⟨c, rfl, folds⟩ := isFinal
      exact ⟨"hysteria2", by decide, List.rel_append (matches_literal.mp isName) (.cons folds .nil)⟩
    · obtain rfl : final = [] := isFinal
      rw [List.append_nil]
      exact ⟨"hysteria", by decide, matches_literal.mp isName⟩
  · exact ⟨"tuic", by decide, matches_literal.mp matched⟩

/-- What both URI patterns read: a URI, which starts at a word boundary if its scheme is the short one. -/
def ReadsURIs (pattern : Regex Symbol) : Prop :=
  ∀ before read after, pattern.Matches before read after → ∃ scheme, IsURI scheme read ∧
    (scheme = "ss" → Regex.wordSide wordSymbol before ≠ Regex.wordSide wordSymbol (read ++ after).head?)

theorem httpURL_readsURIs : ReadsURIs httpURL := by
  intro before read after matched
  obtain ⟨left, tail, rfl, named, isTail⟩ := schemeURL_matches matched
  obtain ⟨scheme, listed, notShort, spells⟩ := httpScheme_spells named
  exact ⟨scheme, ⟨listed, left, tail, rfl, spells, isTail⟩, fun short => absurd short notShort⟩

theorem proxyURI_readsURIs : ReadsURIs proxyURI := by
  intro before read after matched
  obtain ⟨none', rest, rfl, ⟨rfl, sides⟩, matched⟩ := matched
  obtain ⟨left, tail, rfl, named, isTail⟩ := schemeURL_matches matched
  obtain ⟨scheme, listed, spells⟩ := proxyScheme_spells named
  exact ⟨scheme, ⟨listed, left, tail, rfl, spells, isTail⟩, fun _ => sides⟩

theorem httpURL_endsLocally : httpURL.EndsLocally :=
  Regex.BoundaryFree.endsLocally (by decide)

theorem proxyURI_endsLocally : proxyURI.EndsLocally :=
  Regex.BoundaryFree.endsLocally_boundary (by decide) wordSymbol

/-! ### Texts without a mark -/

/-- No URI starts in the text. -/
def NoMark (text : Bytes) : Prop := ¬ lit "://" <:+: text

theorem NoMark.append_left {left right : Bytes} (plain : NoMark (left ++ right)) : NoMark left :=
  fun marked => plain (marked.trans (List.prefix_append left right).isInfix)

/-- The bytes of a valid rune. -/
theorem raw_of_rune {text : Bytes} {s : Symbol} (member : s ∈ symbols text) {c : Char} (valid : c ≠ runeError)
    (rune : s.rune = c) : s.raw = String.utf8EncodeChar c := by
  rcases mem_symbols member with ⟨d, rfl⟩ | ⟨b, rfl⟩
  · obtain rfl : d = c := rune
    rfl
  · exact absurd rune.symm valid

/-- A mark that is read is in the text. -/
theorem NoMark.not_tail {text : Bytes} (plain : NoMark text) {before tail after : List Symbol}
    (split : symbols text = before ++ (tail ++ after)) : ¬ IsTail tail := by
  rintro ⟨colon, slash, other, right, rfl, isColon, isSlash, isOther, _⟩
  have among : ∀ s ∈ [colon, slash, other], s ∈ symbols text := by
    intro s member
    rw [split]
    simp only [List.mem_cons, List.not_mem_nil, or_false] at member
    rcases member with rfl | rfl | rfl <;> simp
  have spelled : raw [colon, slash, other] = lit "://" := by
    rw [raw, List.flatMap_cons, List.flatMap_cons, List.flatMap_cons,
      raw_of_rune (among colon (by simp)) (by decide) isColon, raw_of_rune (among slash (by simp)) (by decide) isSlash,
      raw_of_rune (among other (by simp)) (by decide) isOther]
    decide
  refine plain ⟨raw before, raw (right ++ after), ?_⟩
  rw [← spelled, ← raw_append, ← raw_append, ← raw_symbols text, split]
  simp

theorem silent_noMark {pattern : Regex Symbol} (reads : ReadsURIs pattern) {text : Bytes} (plain : NoMark text)
    (before : Option Symbol) : pattern.Silent before (symbols text) [] := by
  intro left right split _
  by_contra found
  obtain ⟨read, after, follows, matched⟩ := Regex.ends_ne_nil_iff.mp found
  obtain ⟨scheme, ⟨_, name, tail, rfl, _, isTail⟩, _⟩ := reads _ _ _ matched
  have places : symbols text = (left ++ name) ++ (tail ++ after) := by
    rw [split, ← List.append_nil right, follows]
    simp
  exact plain.not_tail places isTail

/-- Text without a mark is copied. -/
theorem replaceFrom_noMark {pattern : Regex Symbol} (reads : ReadsURIs pattern) (replacement : List Symbol)
    {text : Bytes} (plain : NoMark text) (before : Option Symbol) :
    pattern.replaceFrom replacement 0 before (symbols text) = symbols text := by
  have copied : pattern.replaceFrom replacement 0 before (symbols text ++ []) = _ :=
    Regex.replaceFrom_of_silent (silent_noMark reads plain before)
  rw [List.append_nil, Regex.replaceFrom, List.append_nil] at copied
  exact copied

/-! ### White space -/

/-- A byte that ends a URI. -/
def IsSpaceByte (b : UInt8) : Prop := b ∈ lit "\t\n\x0C\r "

/-- The symbol of an ASCII byte. -/
def asciiSymbol (b : UInt8) : Symbol := ⟨Char.ofNat b.toNat, [b]⟩

theorem space_ascii {b : UInt8} (space : IsSpaceByte b) : b.toNat < 128 ∧ nonSpaceSymbol (asciiSymbol b) = false := by
  have all : ∀ b ∈ lit "\t\n\x0C\r ", b.toNat < 128 ∧ nonSpaceSymbol (asciiSymbol b) = false := by decide +kernel
  exact all b space

theorem foldsTo_cases {c r : Char} (folds : foldsTo c r = true) :
    r = c ∨ r = c.toUpper ∨ r = '\u017F' ∨ r = '\u212A' := by
  simp only [foldsTo, Bool.or_eq_true, Bool.and_eq_true, beq_iff_eq] at folds
  rcases folds with ((same | upper) | ⟨_, long⟩) | ⟨_, kelvin⟩
  · exact .inl same
  · exact .inr (.inl upper)
  · exact .inr (.inr (.inl long))
  · exact .inr (.inr (.inr kelvin))

/-- A spelled text keeps clear of runes that neither its letters nor their capitals are. -/
theorem Spells.avoids {text : List Char} {read : List Symbol} (spells : Spells text read) {bad : Char → Bool}
    (clear : ∀ c ∈ text, bad c = false ∧ bad c.toUpper = false) (long : bad '\u017F' = false)
    (kelvin : bad '\u212A' = false) :
    ∀ s ∈ read, bad s.rune = false := by
  induction spells with
  | nil => exact fun s member => absurd member List.not_mem_nil
  | cons folds _ ih =>
      intro s member
      rcases List.mem_cons.mp member with rfl | later
      · rcases foldsTo_cases folds with same | same | same | same
        · rw [same]
          exact (clear _ List.mem_cons_self).1
        · rw [same]
          exact (clear _ List.mem_cons_self).2
        · rw [same]
          exact long
        · rw [same]
          exact kelvin
      · exact ih (fun c among => clear c (List.mem_cons_of_mem _ among)) s later

/-- A URI does not go on behind white space. -/
theorem IsURI.unbroken {scheme : String} {read : List Symbol} (uri : IsURI scheme read) :
    ∀ s ∈ read, nonSpaceSymbol s = true := by
  obtain ⟨listed, left, tail, rfl, spells, colon, slash, other, right, rfl, isColon, isSlash, isOther, unbroken⟩ := uri
  have clear : ∀ scheme ∈ schemes, ∀ c ∈ scheme.toList, isSpaceRune c = false ∧ isSpaceRune c.toUpper = false := by
    decide
  intro s member
  rw [nonSpaceSymbol, Bool.not_eq_true']
  rcases List.mem_append.mp member with inScheme | inTail
  · exact spells.avoids (clear scheme listed) (by decide) (by decide) s inScheme
  · simp only [List.mem_cons] at inTail
    rcases inTail with rfl | rfl | rfl | later
    · rw [isColon]
      decide
    · rw [isSlash]
      decide
    · rw [isOther]
      decide
    · have kept := unbroken s later
      rwa [nonSpaceSymbol, Bool.not_eq_true'] at kept

theorem contained_space {pattern : Regex Symbol} (reads : ReadsURIs pattern) (before : Option Symbol)
    (text : List Symbol) {space : Symbol} (isSpace : nonSpaceSymbol space = false) (rest : List Symbol) :
    pattern.Contained before text (space :: rest) := by
  intro left right split _ read after follows matched
  obtain ⟨scheme, uri, _⟩ := reads _ _ _ matched
  by_contra long
  have covers : right ++ [space] <+: read := by
    have first : right ++ [space] <+: right ++ space :: rest := ⟨rest, by simp⟩
    refine List.prefix_of_prefix_length_le first ⟨after, follows.symm⟩ ?_
    simp only [List.length_append, List.length_singleton]
    omega
  have unbroken := uri.unbroken space (covers.subset (by simp))
  rw [isSpace] at unbroken
  exact Bool.false_ne_true unbroken

/-- A replacement behind white space does not see what stands in front. -/
theorem replaceAll_space {pattern : Regex Symbol} (reads : ReadsURIs pattern) (locally : pattern.EndsLocally)
    (replacement : List Symbol) (head : Bytes) {space : UInt8} (isSpace : IsSpaceByte space) (rest : Bytes) :
    pattern.replaceAll replacement (symbols (head ++ space :: rest)) =
      pattern.replaceAll replacement (symbols head) ++
        asciiSymbol space :: pattern.replaceFrom replacement 0 (some (asciiSymbol space)) (symbols rest) := by
  obtain ⟨ascii, notNonSpace⟩ := space_ascii isSpace
  have alone : ∀ before, pattern.matchLength before (asciiSymbol space :: symbols rest) = none := by
    intro before
    rw [Regex.matchLength_eq_none_iff]
    by_contra found
    obtain ⟨read, after, follows, matched⟩ := Regex.ends_ne_nil_iff.mp found
    obtain ⟨scheme, uri, _⟩ := reads _ _ _ matched
    have nonempty : read ≠ [] := by
      obtain ⟨_, name, tail, rfl, _, colon, slash, other, right, rfl, _⟩ := uri
      simp
    obtain ⟨first, others, rfl⟩ := List.exists_cons_of_ne_nil nonempty
    obtain rfl : asciiSymbol space = first := (List.cons_eq_cons.mp follows).1
    have unbroken := uri.unbroken (asciiSymbol space) List.mem_cons_self
    rw [notNonSpace] at unbroken
    exact Bool.false_ne_true unbroken
  have decoded : symbols (head ++ space :: rest) = symbols head ++ asciiSymbol space :: symbols rest := by
    rw [symbols_append (startsSequence_ascii ascii rest), symbols_ascii_cons ascii, asciiSymbol]
  rw [Regex.replaceAll, decoded,
    Regex.replaceFrom_append locally (contained_space reads none (symbols head) notNonSpace (symbols rest)),
    Regex.replaceFrom, alone]
  rfl

/-! ### Keys -/

/-- A listed key, each letter in either case. -/
def SpellsKey (k : Bytes) : Prop :=
  ∃ key ∈ secretKeyPattern, ∃ spelled, k = encodeRunes spelled ∧
    List.Forall₂ (fun c r => r = c ∨ r = c.toUpper) key.toList spelled

/-- What a rune is folded to. -/
def foldedRune (r : Char) : Char := if r = '\u017F' then 's' else if r = '\u212A' then 'k' else r.toLower

/-- The patterns are written in runes that are folded to themselves. -/
def Written (c : Char) : Prop :=
  foldedRune c = c ∧ foldedRune c.toUpper = c ∧ c.toNat < 128 ∧ c.toUpper.toNat < 128

instance decidableWritten (c : Char) : Decidable (Written c) := inferInstanceAs (Decidable (_ ∧ _ ∧ _ ∧ _))

theorem schemes_written : ∀ scheme ∈ schemes, ∀ c ∈ scheme.toList, Written c := by decide

theorem keys_written : ∀ key ∈ secretKeyPattern, ∀ c ∈ key.toList, Written c := by decide

theorem foldedRune_of_foldsTo {c r : Char} (written : Written c) (folds : foldsTo c r = true) : foldedRune r = c := by
  simp only [foldsTo, Bool.or_eq_true, Bool.and_eq_true, beq_iff_eq] at folds
  rcases folds with ((same | upper) | ⟨isS, long⟩) | ⟨isK, kelvin⟩
  · rw [same]
    exact written.1
  · rw [upper]
    exact written.2.1
  · rw [isS, long]
    decide
  · rw [isK, kelvin]
    decide

/-- What is spelled can be read off. -/
theorem Spells.folded {text : List Char} {read : List Symbol} (spells : Spells text read)
    (written : ∀ c ∈ text, Written c) :
    read.map (fun s => foldedRune s.rune) = text := by
  induction spells with
  | nil => rfl
  | cons folds _ ih =>
      rw [List.map_cons, foldedRune_of_foldsTo (written _ List.mem_cons_self) folds,
        ih fun c among => written c (List.mem_cons_of_mem _ among)]

/-- What the symbols of a spelled key are. -/
structure KeySymbols (key : String) (read : List Symbol) : Prop where
  listed : key ∈ secretKeyPattern
  folded : read.map (fun s => foldedRune s.rune) = key.toList
  spells : Spells key.toList read
  either : ∀ s ∈ read, ∃ c ∈ key.toList, s.rune = c ∨ s.rune = c.toUpper

/-- Every letter is written for one of the key. -/
theorem exists_written {text read : List Char} (pairs : List.Forall₂ (fun c r => r = c ∨ r = c.toUpper) text read) :
    ∀ r ∈ read, ∃ c ∈ text, r = c ∨ r = c.toUpper := by
  induction pairs with
  | nil => exact fun r none' => absurd none' List.not_mem_nil
  | cons either _ ih =>
      intro r inside
      rcases List.mem_cons.mp inside with rfl | later
      · exact ⟨_, List.mem_cons_self, either⟩
      · obtain ⟨c, found, holds⟩ := ih r later
        exact ⟨c, List.mem_cons_of_mem _ found, holds⟩

theorem SpellsKey.keySymbols {k : Bytes} (spelled : SpellsKey k) : ∃ key, KeySymbols key (symbols k) := by
  obtain ⟨key, listed, letters, rfl, same⟩ := spelled
  have decoded : symbols (encodeRunes letters) = letters.map validSymbol := symbols_encodeRunes letters
  have spells : Spells key.toList (letters.map validSymbol) := by
    rw [Spells, List.forall₂_map_right_iff]
    refine same.imp fun c r either => ?_
    rcases either with rfl | rfl
    · simp [foldsTo, validSymbol]
    · simp [foldsTo, validSymbol]
  refine ⟨key, listed, ?_, decoded ▸ spells, ?_⟩
  · rw [decoded]
    exact spells.folded (keys_written key listed)
  · rw [decoded]
    intro s member
    obtain ⟨r, among, rfl⟩ := List.mem_map.mp member
    exact exists_written same r among

/-- What every letter of the listed keys has, in either case, every symbol of a spelled key has. -/
theorem KeySymbols.all {key : String} {read : List Symbol} (isKey : KeySymbols key read) {holds : Char → Bool}
    (clear : ∀ c ∈ key.toList, holds c = true ∧ holds c.toUpper = true) : ∀ s ∈ read, holds s.rune = true := by
  intro s member
  obtain ⟨c, among, same | same⟩ := isKey.either s member
  · rw [same]
    exact (clear c among).1
  · rw [same]
    exact (clear c among).2

/-- A key starts with a word rune. -/
theorem KeySymbols.head {key : String} {read : List Symbol} (isKey : KeySymbols key read) :
    ∃ first others, read = first :: others ∧ wordSymbol first = true := by
  have letters : ∀ key ∈ secretKeyPattern, key.toList ≠ [] ∧ ∀ c ∈ key.toList,
      (key.toList.head? = some (foldedRune c) → isWordRune c = true) ∧
        (key.toList.head? = some (foldedRune c.toUpper) → isWordRune c.toUpper = true) := by decide
  obtain ⟨nonempty, word⟩ := letters key isKey.listed
  cases read with
  | nil => exact absurd isKey.folded.symm nonempty
  | cons first others =>
      refine ⟨first, others, rfl, ?_⟩
      have starts : key.toList.head? = some (foldedRune first.rune) := by
        rw [← isKey.folded]
        rfl
      obtain ⟨c, among, either | either⟩ := isKey.either first List.mem_cons_self
      · rw [either] at starts
        rw [wordSymbol, either]
        exact (word c among).1 starts
      · rw [either] at starts
        rw [wordSymbol, either]
        exact (word c among).2 starts

/-- A key starts with an ASCII rune, so it is decoded on its own. -/
theorem SpellsKey.starts {k : Bytes} (spelled : SpellsKey k) (rest : Bytes) : StartsSequence (k ++ rest) := by
  obtain ⟨key, listed, letters, rfl, same⟩ := spelled
  have nonempty : ∀ key ∈ secretKeyPattern, key.toList ≠ [] := by decide
  cases letters with
  | nil => exact absurd (List.forall₂_nil_right_iff.mp same) (nonempty key listed)
  | cons r letters =>
      obtain ⟨c, others, either, _, split⟩ := List.forall₂_cons_right_iff.mp same
      have ascii : r.toNat < 128 := by
        have written := keys_written key listed c (split ▸ List.mem_cons_self)
        rcases either with rfl | rfl
        · exact written.2.2.1
        · exact written.2.2.2
      have encoded : ∀ n : Fin 128, String.utf8EncodeChar (Char.ofNat n.val) = [UInt8.ofNat n.val] := by decide
      have single : String.utf8EncodeChar r = [UInt8.ofNat r.toNat] := by
        have := encoded ⟨r.toNat, ascii⟩
        rwa [Char.ofNat_toNat] at this
      rw [encodeRunes_cons, single, List.append_assoc, List.singleton_append]
      refine startsSequence_ascii ?_ _
      rw [UInt8.toNat_ofNat']
      omega

/-- A scheme is no end of a key, but for the short one in `pass`, and no key is the end of a scheme. -/
theorem schemes_keys : ∀ scheme ∈ schemes, ∀ key ∈ secretKeyPattern,
    (scheme.toList <:+ key.toList → scheme = "ss" ∧ key = "pass") ∧ ¬ key.toList <:+ scheme.toList := by decide

/-- A symbol that is neither in the scheme nor a slash stands behind the mark, or it is the colon. -/
theorem cut_at {inner rest name more : List Symbol} {separator colon slash other : Symbol}
    (follows : inner ++ separator :: rest = name ++ colon :: slash :: other :: more) (notName : separator ∉ name)
    (notSlash : separator ≠ slash) (notOther : separator ≠ other) :
    inner = name ∨ ∃ extra, inner = name ++ colon :: slash :: other :: extra := by
  rcases List.append_eq_append_iff.mp follows with ⟨extra, longer, tail⟩ | ⟨extra, longer, tail⟩
  · cases extra with
    | nil => exact .inl (by rw [longer, List.append_nil])
    | cons first extra =>
        obtain ⟨rfl, _⟩ := List.cons_eq_cons.mp tail
        exact absurd (longer ▸ List.mem_append_right _ List.mem_cons_self) notName
  · rcases extra with _ | ⟨first, _ | ⟨second, _ | ⟨third, extra⟩⟩⟩
    · exact .inl (by rw [longer, List.append_nil])
    · exact absurd (List.cons_eq_cons.mp (List.cons_eq_cons.mp tail).2).1.symm notSlash
    · exact absurd (List.cons_eq_cons.mp (List.cons_eq_cons.mp (List.cons_eq_cons.mp tail).2).2).1.symm notOther
    · simp only [List.cons_append, List.cons.injEq] at tail
      obtain ⟨rfl, rfl, rfl, _⟩ := tail
      exact .inr ⟨extra, longer⟩

theorem KeySymbols.not_slash {key : String} {spelled : List Symbol} (isKey : KeySymbols key spelled) :
    ∀ s ∈ spelled, s.rune ≠ '/' := by
  have clear : ∀ key ∈ secretKeyPattern, ∀ c ∈ key.toList, (c != '/') = true ∧ (c.toUpper != '/') = true := by decide
  intro s member
  have kept : (s.rune != '/') = true := isKey.all (clear key isKey.listed) s member
  rwa [bne_iff_ne] at kept

/-- No scheme ends where a key ends: the short one, at the end of `pass`, has no word boundary in front of it. -/
theorem KeySymbols.not_scheme {key scheme : String} {spelled front left name : List Symbol}
    (isKey : KeySymbols key spelled)
    (listed : scheme ∈ schemes) (spells : Spells scheme.toList name) (ends : front ++ spelled = left ++ name)
    (before : Option Symbol) {after : List Symbol}
    (short : scheme = "ss" →
      Regex.wordSide wordSymbol (Regex.advance before left) ≠ Regex.wordSide wordSymbol (name ++ after).head?) :
    False := by
  have written : name.map (fun s => foldedRune s.rune) = scheme.toList := spells.folded (schemes_written scheme listed)
  have inKey : name <:+ front ++ spelled := ⟨left, ends.symm⟩
  rcases List.suffix_or_suffix_of_suffix inKey ⟨front, rfl⟩ with ⟨first, split⟩ | shorter
  · have suffix : scheme.toList <:+ key.toList := by
      rw [← written, ← isKey.folded, ← split, List.map_append]
      exact List.suffix_append _ _
    obtain ⟨rfl, rfl⟩ := (schemes_keys scheme listed key isKey.listed).1 suffix
    have clear : ∀ c ∈ "pass".toList, isWordRune c = true ∧ isWordRune c.toUpper = true := by decide
    have word : ∀ s ∈ spelled, wordSymbol s = true := isKey.all clear
    have count : first.length = 2 ∧ name.length = 2 := by
      have inName := congrArg List.length written
      have inSpelled := congrArg List.length isKey.folded
      rw [← split] at inSpelled
      simp only [List.length_map, List.length_append] at inName inSpelled
      have short : "ss".toList.length = 2 ∧ "pass".toList.length = 4 := by decide
      omega
    obtain ⟨behind, last, rfl⟩ := List.eq_nil_or_concat first |>.resolve_left (by
      rintro rfl
      simp at count)
    have filled : name ≠ [] := by
      rintro rfl
      simp at count
    obtain ⟨next, others, rfl⟩ := List.exists_cons_of_ne_nil filled
    have leftEnd : left = front ++ behind ++ [last] := by
      rw [← split, ← List.append_assoc, List.concat_eq_append, ← List.append_assoc] at ends
      exact (List.append_cancel_right ends).symm
    refine short rfl ?_
    rw [leftEnd, Regex.advance_concat, List.cons_append, List.head?_cons]
    simp only [Regex.wordSide, Option.any_some]
    rw [word last (split ▸ by simp), word next (split ▸ by simp)]
  · refine (schemes_keys scheme listed key isKey.listed).2 ?_
    obtain ⟨first, split⟩ := shorter
    rw [← written, ← isKey.folded, ← split, List.map_append]
    exact List.suffix_append _ _

/-- No URI starts in front of a separator behind a key. -/
theorem silent_key {pattern : Regex Symbol} (reads : ReadsURIs pattern) (before : Option Symbol) {lead : Bytes}
    (plain : NoMark lead) {key : String} {spelled : List Symbol} (isKey : KeySymbols key spelled) {separator : Symbol}
    (isSeparator : separatorSymbol separator = true) (rest : List Symbol) :
    pattern.Silent before (symbols lead ++ spelled ++ [separator]) rest := by
  intro left right split nonempty
  by_contra found
  obtain ⟨read, after, follows, matched⟩ := Regex.ends_ne_nil_iff.mp found
  obtain ⟨scheme, ⟨listed, name, tail, rfl, spells, isTail⟩, short⟩ := reads _ _ _ matched
  obtain ⟨inner, rfl, front⟩ : ∃ inner, right = inner ++ [separator] ∧ symbols lead ++ spelled = left ++ inner := by
    obtain ⟨inner, last, rfl⟩ := List.eq_nil_or_concat right |>.resolve_left nonempty
    rw [List.concat_eq_append, ← List.append_assoc] at split
    obtain ⟨same, ends⟩ := List.append_inj' split rfl
    rw [← (List.cons_eq_cons.mp ends).1]
    exact ⟨inner, List.concat_eq_append, same⟩
  have notName : separator ∉ name := by
    intro among
    have clear : ∀ scheme ∈ schemes, ∀ c ∈ scheme.toList,
        (c == ':' || c == '=') = false ∧ (c.toUpper == ':' || c.toUpper == '=') = false := by decide
    have apart : (separator.rune == ':' || separator.rune == '=') = false :=
      spells.avoids (clear scheme listed) (by decide) (by decide) separator among
    rw [separatorSymbol, apart] at isSeparator
    exact Bool.false_ne_true isSeparator
  have notSlash : ∀ {s : Symbol}, s.rune = '/' → separator ≠ s := by
    rintro s isSlash rfl
    rw [separatorSymbol, isSlash] at isSeparator
    exact absurd isSeparator (by decide)
  obtain ⟨colon, slash, other, more, rfl, isColon, isSlash, isOther, unbroken⟩ := isTail
  have text : inner ++ separator :: rest = name ++ colon :: slash :: other :: (more ++ after) := by
    simpa using follows
  rcases cut_at text notName (notSlash isSlash) (notSlash isOther) with rfl | ⟨extra, rfl⟩
  · exact isKey.not_scheme listed spells front before (by rwa [List.append_assoc] at short)
  -- the mark stands in front of the key, where there is none
  · have behind : symbols lead ++ spelled = (left ++ name ++ [colon, slash, other]) ++ extra := by
      rw [front]
      simp
    obtain ⟨more', inLead⟩ : ∃ more', symbols lead = left ++ name ++ [colon, slash, other] ++ more' := by
      rcases List.append_eq_append_iff.mp behind with ⟨inKey, longer, tail⟩ | ⟨more', longer, _⟩
      · rcases List.eq_nil_or_concat inKey with rfl | ⟨others, last, rfl⟩
        · exact ⟨[], by rw [List.append_nil, longer, List.append_nil]⟩
        · rw [List.concat_eq_append, ← List.append_assoc] at longer
          have final : other = last := by
            have := congrArg List.getLast? longer
            simpa using this
          exact absurd isOther (isKey.not_slash other (by rw [tail, final]; simp))
      · exact ⟨more', longer⟩
    refine plain.not_tail (?_ : symbols _ = (left ++ name) ++ ([colon, slash, other] ++ more'))
      ⟨colon, slash, other, [], rfl, isColon, isSlash, isOther, fun s none' => absurd none' List.not_mem_nil⟩
    rw [inLead]
    simp

theorem SpellsKey.not_quote {k : Bytes} (spelled : SpellsKey k) : byte '"' ∉ k := by
  obtain ⟨key, listed, letters, rfl, same⟩ := spelled
  have clear : ∀ key ∈ secretKeyPattern, ∀ c ∈ key.toList, c ≠ '"' ∧ c.toUpper ≠ '"' := by decide
  intro member
  obtain ⟨r, among, inside⟩ := List.mem_flatMap.mp member
  obtain ⟨c, written, either⟩ := exists_written same r among
  refine byte_notMem_literal (by decide) ?_ inside
  rcases either with rfl | rfl
  · exact (clear key listed r written).1
  · exact (clear key listed c written).2

/-! ### Both URI replacements -/

/-- Every URI that starts in `text` ends in it, in front of what follows: no mark, or white space behind the last. -/
def ClosedBefore (text rest : Bytes) : Prop :=
  NoMark (text ++ rest) ∨
    ∃ head space lead, text = head ++ space :: lead ∧ IsSpaceByte space ∧ NoMark (lead ++ rest)

variable {pattern : Regex Symbol}

theorem replaceAllString_noMark (reads : ReadsURIs pattern) (replacement : Bytes) {text : Bytes} (plain : NoMark text) :
    replaceAllString pattern text replacement = text := by
  rw [replaceAllString, Regex.replaceAll, replaceFrom_noMark reads _ plain, raw_symbols]

/-- One replacement, in front of text it leaves alone. -/
theorem replaceAllString_closed (reads : ReadsURIs pattern) (locally : pattern.EndsLocally) (replacement : Bytes)
    {text rest : Bytes} (closed : ClosedBefore text rest) :
    replaceAllString pattern (text ++ rest) replacement = replaceAllString pattern text replacement ++ rest ∧
      ClosedBefore (replaceAllString pattern text replacement) rest := by
  rcases closed with plain | ⟨head, space, lead, rfl, isSpace, plain⟩
  · rw [replaceAllString_noMark reads replacement plain, replaceAllString_noMark reads replacement plain.append_left]
    exact ⟨rfl, .inl plain⟩
  · have written : ∀ {behind : Bytes}, NoMark behind → replaceAllString pattern (head ++ space :: behind) replacement =
        replaceAllString pattern head replacement ++ space :: behind := by
      intro behind plain
      rw [replaceAllString, replaceAll_space reads locally _ head isSpace, replaceFrom_noMark reads _ plain, raw_append,
        raw_cons, raw_symbols, replaceAllString, asciiSymbol, List.singleton_append]
    rw [List.append_assoc, List.cons_append, written plain, written plain.append_left, List.append_assoc,
      List.cons_append]
    exact ⟨rfl, .inr ⟨_, space, lead, rfl, isSpace, plain⟩⟩

theorem redactURIs_closed {text rest : Bytes} (closed : ClosedBefore text rest) :
    redactURIs (text ++ rest) = redactURIs text ++ rest ∧ ClosedBefore (redactURIs text) rest := by
  obtain ⟨first, still⟩ := replaceAllString_closed proxyURI_readsURIs proxyURI_endsLocally proxyMarker closed
  rw [redactURIs, redactURIs, first]
  exact replaceAllString_closed httpURL_readsURIs httpURL_endsLocally httpMarker still

/-- One replacement, in front of a key with its separator: it does not reach over them. -/
theorem replaceAllString_key (reads : ReadsURIs pattern) (locally : pattern.EndsLocally) (replacement : Bytes)
    {text k : Bytes} (closed : ClosedBefore text []) (spelled : SpellsKey k) {separator : UInt8}
    (isSeparator : separator = byte ':' ∨ separator = byte '=') (rest : Bytes) :
    ∃ others, replaceAllString pattern (text ++ (k ++ separator :: rest)) replacement =
      replaceAllString pattern text replacement ++ (k ++ separator :: others) := by
  obtain ⟨key, isKey⟩ := spelled.keySymbols
  have ascii : separator.toNat < 128 ∧ separatorSymbol (asciiSymbol separator) = true := by
    rcases isSeparator with rfl | rfl <;> decide
  -- text without a mark, the key and the separator
  have written : ∀ {lead : Bytes}, NoMark lead → ∀ before, ∃ others,
      raw (pattern.replaceFrom (symbols replacement) 0 before (symbols (lead ++ (k ++ separator :: rest)))) =
        lead ++ (k ++ separator :: others) := by
    intro lead plain before
    have decoded : symbols (lead ++ (k ++ separator :: rest)) =
        (symbols lead ++ symbols k ++ [asciiSymbol separator]) ++ symbols rest := by
      rw [symbols_append (spelled.starts _), symbols_append (startsSequence_ascii ascii.1 rest),
        symbols_ascii_cons ascii.1, asciiSymbol]
      simp
    refine ⟨raw (pattern.replaceFrom (symbols replacement) 0 (some (asciiSymbol separator)) (symbols rest)), ?_⟩
    rw [decoded, Regex.replaceFrom_of_silent (silent_key reads before plain isKey ascii.2 (symbols rest)),
      Regex.advance_concat]
    simp [asciiSymbol]
  rcases closed with plain | ⟨head, space, lead, rfl, isSpace, plain⟩
  · rw [List.append_nil] at plain
    obtain ⟨others, same⟩ := written plain none
    exact ⟨others, by rw [replaceAllString, Regex.replaceAll, same, replaceAllString_noMark reads replacement plain]⟩
  · rw [List.append_nil] at plain
    obtain ⟨others, same⟩ := written plain (some (asciiSymbol space))
    refine ⟨others, ?_⟩
    rw [List.append_assoc, List.cons_append, replaceAllString, replaceAll_space reads locally _ head isSpace, raw_append,
      raw_cons, same, replaceAllString, replaceAll_space reads locally _ head isSpace, raw_append, raw_cons,
      replaceFrom_noMark reads _ plain, raw_symbols]
    simp

theorem redactURIs_key {text k : Bytes} (closed : ClosedBefore text []) (spelled : SpellsKey k) {separator : UInt8}
    (isSeparator : separator = byte ':' ∨ separator = byte '=') (rest : Bytes) :
    ∃ others, redactURIs (text ++ (k ++ separator :: rest)) = redactURIs text ++ (k ++ separator :: others) := by
  obtain ⟨others, first⟩ :=
    replaceAllString_key proxyURI_readsURIs proxyURI_endsLocally proxyMarker closed spelled isSeparator rest
  have still := (replaceAllString_closed proxyURI_readsURIs proxyURI_endsLocally proxyMarker closed).2
  rw [redactURIs, redactURIs, first]
  exact replaceAllString_key httpURL_readsURIs httpURL_endsLocally httpMarker still spelled isSeparator others

/-- A replacement writes no quote of its own. -/
theorem replaceAllString_not_quote {text replacement : Bytes} (quiet : byte '"' ∉ text)
    (quietReplacement : byte '"' ∉ replacement) :
    byte '"' ∉ replaceAllString pattern text replacement := by
  intro member
  obtain ⟨s, among, inside⟩ := List.mem_flatMap.mp member
  rcases Regex.mem_replaceFrom among with inText | inReplacement
  · exact quiet (raw_symbols text ▸ List.mem_flatMap.mpr ⟨s, inText, inside⟩)
  · exact quietReplacement (raw_symbols replacement ▸ List.mem_flatMap.mpr ⟨s, inReplacement, inside⟩)

theorem redactURIs_not_quote {text : Bytes} (quiet : byte '"' ∉ text) : byte '"' ∉ redactURIs text :=
  replaceAllString_not_quote (replaceAllString_not_quote quiet (by decide)) (by decide)

/-- Where a message can be cut: neither in a word nor in a URI. -/
def EndsWord (text : Bytes) : Prop := Regex.wordSide wordSymbol (Regex.advance none (symbols text)) = true

theorem replaceAllString_endsWord (reads : ReadsURIs pattern) (locally : pattern.EndsLocally) (replacement : Bytes)
    {text : Bytes} (closed : ClosedBefore text []) :
    EndsWord (replaceAllString pattern text replacement) ↔ EndsWord text := by
  rcases closed with plain | ⟨head, space, lead, rfl, isSpace, plain⟩
  · rw [replaceAllString_noMark reads replacement plain.append_left]
  · rw [List.append_nil] at plain
    obtain ⟨ascii, _⟩ := space_ascii isSpace
    have cut : ∀ front : Bytes, Regex.advance none (symbols (front ++ space :: lead)) =
        Regex.advance (some (asciiSymbol space)) (symbols lead) := by
      intro front
      rw [symbols_append (startsSequence_ascii ascii lead), symbols_ascii_cons ascii, Regex.advance_append,
        Regex.advance_cons, asciiSymbol]
    have written : replaceAllString pattern (head ++ space :: lead) replacement =
        replaceAllString pattern head replacement ++ space :: lead := by
      rw [replaceAllString, replaceAll_space reads locally _ head isSpace, replaceFrom_noMark reads _ plain, raw_append,
        raw_cons, raw_symbols, replaceAllString, asciiSymbol, List.singleton_append]
    rw [EndsWord, EndsWord, written, cut, cut]

theorem redactURIs_endsWord {text : Bytes} (closed : ClosedBefore text []) :
    EndsWord (redactURIs text) ↔ EndsWord text := by
  have still := (replaceAllString_closed proxyURI_readsURIs proxyURI_endsLocally proxyMarker closed).2
  rw [redactURIs, replaceAllString_endsWord httpURL_readsURIs httpURL_endsLocally httpMarker still,
    replaceAllString_endsWord proxyURI_readsURIs proxyURI_endsLocally proxyMarker closed]

/-! ### Fields in plain text -/

/-- What stands in front of the separator of a field. -/
def FieldName (read : List Symbol) : Prop :=
  ∃ key ∈ secretKeyPattern, ∃ name quote spaces, read = name ++ (quote ++ spaces) ∧ Spells key.toList name ∧
    (quote = [] ∨ ∃ q, quote = [q] ∧ quoteSymbol q = true) ∧ ∀ s ∈ spaces, spaceSymbol s = true

theorem secretFieldKey_matches {before : Option Symbol} {read after : List Symbol} :
    secretFieldKey.Matches before read after ↔
      Regex.wordSide wordSymbol before ≠ Regex.wordSide wordSymbol (read ++ after).head? ∧
        ∃ name separator spaces, read = name ++ separator :: spaces ∧ FieldName name ∧
          separatorSymbol separator = true ∧ ∀ s ∈ spaces, spaceSymbol s = true := by
  constructor
  · rintro ⟨none', rest, rfl, ⟨rfl, sides⟩, matched⟩
    refine ⟨sides, ?_⟩
    obtain ⟨name, rest, rfl, isName, matched⟩ := Regex.matches_seqs_cons.mp matched
    obtain ⟨quote, rest, rfl, isQuote, matched⟩ := Regex.matches_seqs_cons.mp matched
    obtain ⟨spaces, rest, rfl, areSpaces, matched⟩ := Regex.matches_seqs_cons.mp matched
    obtain ⟨single, rest, rfl, ⟨separator, rfl, isSeparator⟩, areBehind⟩ := Regex.matches_seqs_cons.mp matched
    obtain ⟨r, member, isName⟩ := Regex.matches_alts.mp isName
    obtain ⟨key, listed, rfl⟩ := List.mem_map.mp member
    refine ⟨name ++ (quote ++ spaces), separator, rest, by simp, ?_, isSeparator, areBehind⟩
    refine ⟨key, listed, name, quote, spaces, rfl, matches_literal.mp isName, ?_, areSpaces⟩
    rcases isQuote with one | nothing
    · exact .inr one
    · exact .inl nothing
  · rintro ⟨sides, _, separator, behind, rfl, ⟨key, listed, name, quote, spaces, rfl, isName, isQuote, areSpaces⟩,
      isSeparator, areBehind⟩
    refine ⟨[], _, rfl, ⟨rfl, sides⟩, ?_⟩
    refine Regex.matches_seqs_cons.mpr ⟨name, quote ++ (spaces ++ separator :: behind), by simp, ?_, ?_⟩
    · exact Regex.matches_alts.mpr ⟨literal key, List.mem_map_of_mem listed, matches_literal.mpr isName⟩
    refine Regex.matches_seqs_cons.mpr ⟨quote, spaces ++ separator :: behind, rfl, ?_, ?_⟩
    · rcases isQuote with nothing | one
      · exact .inr nothing
      · exact .inl one
    refine Regex.matches_seqs_cons.mpr ⟨spaces, separator :: behind, rfl, areSpaces, ?_⟩
    exact Regex.matches_seqs_cons.mpr ⟨[separator], behind, rfl, ⟨separator, rfl, isSeparator⟩, areBehind⟩

theorem secretFieldKey_consuming : secretFieldKey.Consuming := by
  intro before read after matched
  obtain ⟨_, name, separator, spaces, rfl, _⟩ := secretFieldKey_matches.mp matched
  simp

/-- No separator stands inside the name of a field. -/
theorem FieldName.not_separator {read : List Symbol} (isName : FieldName read) :
    ∀ s ∈ read, separatorSymbol s = false := by
  obtain ⟨key, listed, name, quote, spaces, rfl, spells, isQuote, areSpaces⟩ := isName
  have clear : ∀ key ∈ secretKeyPattern, ∀ c ∈ key.toList,
      (c == ':' || c == '=') = false ∧ (c.toUpper == ':' || c.toUpper == '=') = false := by decide
  intro s member
  rcases List.mem_append.mp member with inName | member
  · exact spells.avoids (clear key listed) (by decide) (by decide) s inName
  rcases List.mem_append.mp member with inQuote | inSpaces
  · rcases isQuote with rfl | ⟨q, rfl, holds⟩
    · exact absurd inQuote List.not_mem_nil
    · rw [List.mem_singleton.mp inQuote]
      simp only [quoteSymbol, Bool.or_eq_true, beq_iff_eq] at holds
      rcases holds with same | same <;> simp [separatorSymbol, same]
  · have holds := areSpaces s inSpaces
    simp only [spaceSymbol, isSpaceRune, Bool.or_eq_true, beq_iff_eq] at holds
    rcases holds with (((same | same) | same) | same) | same <;> simp [separatorSymbol, same]

/-- Whether a field starts somewhere is settled by the text up to a separator. -/
theorem secretFieldKey_settled (before : Option Symbol) {text : List Symbol} {separator : Symbol}
    (isSeparator : separatorSymbol separator = true) (rest : List Symbol) :
    secretFieldKey.ends before (text ++ [separator] ++ rest) = [] ↔
      secretFieldKey.ends before (text ++ [separator]) = [] := by
  rw [← not_iff_not, ← ne_eq, ← ne_eq, Regex.ends_ne_nil_iff, Regex.ends_ne_nil_iff]
  have sameHead : (text ++ [separator] ++ rest).head? = (text ++ [separator]).head? :=
    List.head?_append_of_ne_nil _ (by simp)
  constructor
  · rintro ⟨read, after, follows, matched⟩
    obtain ⟨sides, name, own, spaces, rfl, isName, isOwn, areSpaces⟩ := secretFieldKey_matches.mp matched
    rw [← follows, sameHead] at sides
    -- the separator of the field stands inside the text
    obtain ⟨extra, covers⟩ : ∃ extra, text ++ [separator] = name ++ own :: extra := by
      have split : text ++ separator :: rest = name ++ own :: (spaces ++ after) := by simpa using follows
      rcases List.append_eq_append_iff.mp split with ⟨extra, longer, tail⟩ | ⟨extra, longer, tail⟩
      · cases extra with
        | nil => exact ⟨[], by rw [longer, List.append_nil, (List.cons_eq_cons.mp tail).1]⟩
        | cons first extra =>
            obtain ⟨rfl, _⟩ := List.cons_eq_cons.mp tail
            have clash := isName.not_separator separator (longer ▸ List.mem_append_right _ List.mem_cons_self)
            rw [isSeparator] at clash
            exact absurd clash.symm Bool.false_ne_true
      · cases extra with
        | nil => exact ⟨[], by rw [longer, List.append_nil, (List.cons_eq_cons.mp tail).1]⟩
        | cons first extra =>
            obtain ⟨rfl, _⟩ := List.cons_eq_cons.mp tail
            exact ⟨extra ++ [separator], by rw [longer]; simp⟩
    refine ⟨name ++ [own], extra, by rw [covers]; simp,
      secretFieldKey_matches.mpr ⟨?_, name, own, [], rfl, isName, isOwn, ?_⟩⟩
    · rwa [List.append_assoc, List.singleton_append, ← covers]
    · exact fun s none' => absurd none' List.not_mem_nil
  · rintro ⟨read, after, follows, matched⟩
    obtain ⟨sides, field⟩ := secretFieldKey_matches.mp matched
    refine ⟨read, after ++ rest, by rw [follows, List.append_assoc], secretFieldKey_matches.mpr ⟨?_, field⟩⟩
    rwa [← List.append_assoc, ← follows, sameHead, follows]

theorem raw_ne_nil {text : Bytes} {s : Symbol} (member : s ∈ symbols text) : s.raw ≠ [] := by
  rcases mem_symbols member with ⟨c, rfl⟩ | ⟨b, rfl⟩
  · exact utf8EncodeChar_ne_nil c
  · exact List.cons_ne_nil b []

/-- The bytes in front of a symbol are fewer than all. -/
theorem byteOffset_lt {value : Bytes} {index : Nat} (inside : index < (symbols value).length) :
    (raw ((symbols value).take index)).length < value.length := by
  have split : raw ((symbols value).take index) ++ raw ((symbols value).drop index) = value := by
    rw [← raw_append, List.take_append_drop, raw_symbols]
  have behind : 0 < (raw ((symbols value).drop index)).length := by
    rw [List.drop_eq_getElem_cons inside, raw_cons, List.length_append]
    have := List.length_pos_iff.mpr (raw_ne_nil (List.getElem_mem inside))
    omega
  have total := congrArg List.length split
  rw [List.length_append] at total
  omega

/-- With the cursor at the end, matches are skipped. -/
theorem redactMatches_done {value output : Bytes} {matches' : List (Nat × Nat)}
    (inside : ∀ found ∈ matches', found.1 < value.length) :
    redactMatches value matches' output value.length = output := by
  induction matches' with
  | nil => rw [redactMatches, List.drop_length, List.append_nil]
  | cons found rest ih =>
      rw [redactMatches, if_pos (inside found List.mem_cons_self),
        ih fun other member => inside other (List.mem_cons_of_mem found member)]

/-- Nothing behind the first field is written. -/
theorem redactPlainSecrets_eq (value : Bytes) : redactPlainSecrets value =
    ((secretFieldKey.firstFrom none (symbols value)).map fun first =>
      raw ((symbols value).take first) ++ credentialField).getD value := by
  have searched := Regex.head?_findFrom secretFieldKey_consuming none 0 (symbols value)
  have inside : ∀ found ∈ secretFieldKey.findFrom 0 none 0 (symbols value), found.1 < (symbols value).length := by
    intro found member
    have := Regex.mem_findFrom_lt member
    omega
  rw [redactPlainSecrets, findAllStringIndex, Regex.findAll]
  cases all : secretFieldKey.findFrom 0 none 0 (symbols value) with
  | nil =>
      rw [all, List.head?_nil, Option.map_none] at searched
      rw [Option.map_eq_none_iff.mp searched.symm]
      rfl
  | cons first rest =>
      rw [all, List.head?_cons, Option.map_some] at searched
      obtain ⟨offset, found, same⟩ := Option.map_eq_some_iff.mp searched.symm
      obtain rfl : offset = first.1 := by omega
      rw [all] at inside
      have split : value = raw ((symbols value).take first.1) ++ raw ((symbols value).drop first.1) := by
        rw [← raw_append, List.take_append_drop, raw_symbols]
      have front : slice value 0 (raw ((symbols value).take first.1)).length = raw ((symbols value).take first.1) := by
        rw [slice, List.drop_zero, Nat.sub_zero]
        exact (List.prefix_iff_eq_take.mp ⟨_, split.symm⟩).symm
      rw [found, List.map_cons, redactMatches, if_neg (Nat.not_lt_zero _), front, plainSecretValueEnd, redactMatches_done]
      · rfl
      · intro other member
        obtain ⟨match', among, rfl⟩ := List.mem_map.mp member
        exact byteOffset_lt (inside match' (List.mem_cons_of_mem first among))

/-! ### Messages -/

theorem boundedSanitizeInput_fits {value : Bytes} (fits : value.length ≤ maxSanitizeInputBytes) :
    boundedSanitizeInput value = value := by
  rw [boundedSanitizeInput, if_pos fits]

/-- A message behind a credential key is redacted alike, whatever it says. -/
theorem redactPlainSecrets_key {lead k : Bytes} (cut : ¬ EndsWord lead) (spelled : SpellsKey k) {separator : UInt8}
    (isSeparator : separator = byte ':' ∨ separator = byte '=') (rest : Bytes) :
    redactPlainSecrets (lead ++ (k ++ separator :: rest)) = redactPlainSecrets (lead ++ (k ++ [separator])) := by
  obtain ⟨key, isKey⟩ := spelled.keySymbols
  have ascii : separator.toNat < 128 ∧ separatorSymbol (asciiSymbol separator) = true := by
    rcases isSeparator with rfl | rfl <;> decide
  have decoded : ∀ behind, symbols (lead ++ (k ++ separator :: behind)) =
      (symbols lead ++ symbols k ++ [asciiSymbol separator]) ++ symbols behind := by
    intro behind
    rw [symbols_append (spelled.starts _), symbols_append (startsSequence_ascii ascii.1 behind),
      symbols_ascii_cons ascii.1, asciiSymbol]
    simp
  -- the key itself is found, if nothing is in front of it
  have found : secretFieldKey.firstFrom none (symbols lead ++ symbols k ++ [asciiSymbol separator]) ≠ none := by
    intro nothing
    have silent := Regex.firstFrom_eq_none_iff.mp nothing (symbols lead) (symbols k ++ [asciiSymbol separator])
      (by simp) (by simp)
    rw [List.append_nil] at silent
    refine Regex.ends_ne_nil_iff.mpr ⟨symbols k ++ [asciiSymbol separator], [], (List.append_nil _).symm, ?_⟩ silent
    refine secretFieldKey_matches.mpr
      ⟨?_, symbols k, _, [], rfl, ?_, ascii.2, fun s none' => absurd none' List.not_mem_nil⟩
    · rw [Bool.eq_false_iff.mpr cut]
      obtain ⟨first, others, same, word⟩ := isKey.head
      rw [same]
      simp [Regex.wordSide, word]
    · exact ⟨key, isKey.listed, symbols k, [], [], by simp, isKey.spells, .inl rfl,
        fun s none' => absurd none' List.not_mem_nil⟩
  have same : secretFieldKey.firstFrom none (symbols (lead ++ (k ++ separator :: rest))) =
      secretFieldKey.firstFrom none (symbols (lead ++ (k ++ [separator]))) := by
    rw [decoded, decoded, symbols_nil, List.append_nil]
    refine Regex.firstFrom_append ?_ found
    intro left right split nonempty
    obtain ⟨inner, last, rfl⟩ := List.eq_nil_or_concat right |>.resolve_left nonempty
    rw [List.concat_eq_append, ← List.append_assoc] at split
    obtain ⟨_, ends⟩ := List.append_inj' split rfl
    rw [← (List.cons_eq_cons.mp ends).1, List.concat_eq_append]
    exact secretFieldKey_settled _ ascii.2 (symbols rest)
  rw [redactPlainSecrets_eq, redactPlainSecrets_eq (lead ++ (k ++ [separator])), same, decoded, decoded, symbols_nil,
    List.append_nil]
  cases first : secretFieldKey.firstFrom none (symbols lead ++ symbols k ++ [asciiSymbol separator]) with
  | none => exact absurd first found
  | some offset =>
      obtain ⟨left, right, split, rfl, _⟩ := Regex.firstFrom_eq_some_iff.mp first
      have fits : left.length ≤ (symbols lead ++ symbols k ++ [asciiSymbol separator]).length := by
        rw [split, List.length_append]
        omega
      rw [Option.map_some, Option.map_some, Option.getD_some, Option.getD_some, List.take_append_of_le_length fits]

/-- The blanks in front of a colon do not decide whether it comes. -/
theorem isKeyContext_blanks {blanks rest : Bytes} (blank : ∀ b ∈ blanks, IsBlank b)
    (context : IsKeyContext (blanks ++ rest)) :
    IsKeyContext rest := by
  obtain ⟨others, tail, split, blankOthers⟩ := context
  rcases List.append_eq_append_iff.mp split with ⟨extra, rfl, tails⟩ | ⟨extra, longer, tails⟩
  · exact ⟨extra, tail, tails, fun b member => blankOthers b (List.mem_append_right _ member)⟩
  · cases extra with
    | nil => exact ⟨[], tail, tails.symm, fun b none' => absurd none' List.not_mem_nil⟩
    | cons first extra =>
        obtain ⟨rfl, _⟩ := List.cons_eq_cons.mp tails
        exact absurd (blank (byte ':') (longer ▸ List.mem_append_right _ List.mem_cons_self)) (by decide)

/-- A document in a message: exactly its outermost secret members are replaced. -/
theorem redactJSONSecrets_embedded (document : JsonDocument) {behind : Bytes} (ended : ¬ IsKeyContext behind) :
    redactJSONSecrets (document.text ++ behind) = document.textWith secretMember ++ redactJSONSecrets behind := by
  have shape : document.text ++ behind =
      document.before.bytes ++ (document.value.text ++ (document.after.bytes ++ behind)) := by
    simp [JsonDocument.text, JsonDocument.textWith, JsonTree.text]
  rw [shape, redactJSONSecrets_blanks,
    tree_redacted document.value (fun context => ended (isKeyContext_blanks document.after.blank context)),
    redactJSONSecrets_blanks]
  simp [JsonDocument.textWith]

/-- A document with one member, whose key is `id`. -/
def idDocument (value : JsonTree) : JsonDocument :=
  let none' : Blanks := ⟨[], fun _ member => absurd member List.not_mem_nil⟩
  ⟨none', .object (.last none' [.literal 'i' (by decide), .literal 'd' (by decide)] none' none' value none'), none'⟩

/-- What a log can show: some text in valid UTF-8, bounded in runes and in bytes, without control characters but line
feeds and tabs, and without white space in front. -/
def FitForLog (text : Bytes) : Prop :=
  text ≠ [] ∧ text.length ≤ maxErrorBytes ∧ ∃ runes, text = encodeRunes runes ∧ runes.length ≤ maxErrorRunes ∧
    (∀ r ∈ runes, isControl r = true → r = '\n' ∨ r = '\t') ∧ ∀ r ∈ runes.head?, isSpace r = false

theorem dropToErrorBytes_prefix (turns : Nat) (text : List Char) : dropToErrorBytes turns text <+: text := by
  induction turns generalizing text with
  | zero => exact List.prefix_refl text
  | succ turns ih =>
      rw [dropToErrorBytes]
      split
      · exact (ih text.dropLast).trans (List.dropLast_prefix text)
      · exact List.prefix_refl text

/-- As many turns as the text has runes are enough. -/
theorem dropToErrorBytes_bounded (turns : Nat) (text : List Char) (enough : text.length ≤ turns) :
    (encodeRunes (dropToErrorBytes turns text)).length ≤ maxErrorBytes := by
  induction turns generalizing text with
  | zero =>
      obtain rfl := List.length_eq_zero_iff.mp (Nat.le_zero.mp enough)
      exact Nat.zero_le _
  | succ turns ih =>
      rw [dropToErrorBytes]
      split
      · refine ih text.dropLast ?_
        rw [List.length_dropLast]
        omega
      · rename_i done
        rw [not_and_or, Nat.not_lt, Nat.not_lt] at done
        rcases done with empty | fits
        · obtain rfl := List.length_eq_zero_iff.mp (Nat.le_zero.mp empty)
          exact Nat.zero_le _
        · exact fits

theorem trimEnds_prefix (p : Char → Bool) (text : List Char) : trimEnds p text <+: text.dropWhile p := by
  rw [trimEnds, ← List.reverse_suffix, List.reverse_reverse]
  exact List.dropWhile_suffix p

theorem trimEnds_map (p : Symbol → Bool) (text : List Char) :
    trimEnds p (text.map validSymbol) = (trimEnds (fun c => p (validSymbol c)) text).map validSymbol := by
  rw [trimEnds, trimEnds, List.dropWhile_map, ← List.map_reverse, List.dropWhile_map, ← List.map_reverse]
  rfl

/-- The runes between the white space at both ends. -/
theorem runes_trimSpace (text : List Char) : runes (trimSpace (encodeRunes text)) = trimEnds isSpace text := by
  have written : ∀ kept : List Char, raw (kept.map validSymbol) = encodeRunes kept := by
    intro kept
    rw [← symbols_encodeRunes, raw_symbols]
  rw [trimSpace, symbols_encodeRunes, trimEnds_map, written, runes_encodeRunes]
  rfl

/-- What the trimmed text of a message shows. -/
theorem trimmed_fit (message : Bytes) :
    (∀ r ∈ trimEnds isSpace ((runes message).filterMap dropControl), isControl r = true → r = '\n' ∨ r = '\t') ∧
      ∀ r ∈ (trimEnds isSpace ((runes message).filterMap dropControl)).head?, isSpace r = false := by
  have kept := trimEnds_prefix isSpace ((runes message).filterMap dropControl)
  constructor
  · intro r member control
    obtain ⟨c, _, mapped⟩ := List.mem_filterMap.mp ((List.dropWhile_suffix isSpace).subset (kept.subset member))
    rw [dropControl] at mapped
    split at mapped
    · cases mapped
    · rename_i allowed
      obtain rfl := Option.some.inj mapped
      by_contra other
      rw [not_or] at other
      refine allowed ?_
      rw [control, bne_iff_ne.mpr other.1, bne_iff_ne.mpr other.2]
      rfl
  · intro r first
    obtain ⟨others, split⟩ := kept
    have head : (((runes message).filterMap dropControl).dropWhile isSpace).head? = some r := by
      rw [← split, List.head?_append, first]
      rfl
    have stops := List.head?_dropWhile_not isSpace ((runes message).filterMap dropControl)
    rw [head] at stops
    exact Bool.eq_false_iff.mpr (by simpa using stops)

theorem boundedText_fitForLog {unknown : Bytes} (fits : FitForLog unknown) (message : Bytes) :
    FitForLog (boundedText unknown message) := by
  obtain ⟨controls, front⟩ := trimmed_fit message
  rw [boundedText, mapRunes, runes_trimSpace]
  generalize trimEnds isSpace ((runes message).filterMap dropControl) = text at controls front
  have cut := dropToErrorBytes_prefix (text.take maxErrorRunes).length (text.take maxErrorRunes)
  have bounded := dropToErrorBytes_bounded _ (text.take maxErrorRunes) (Nat.le_refl _)
  generalize dropToErrorBytes (text.take maxErrorRunes).length (text.take maxErrorRunes) = kept at cut bounded
  split
  · exact fits
  · rename_i nonempty
    have inText := cut.trans (List.take_prefix _ _)
    refine ⟨?_, bounded, kept, rfl, ?_, fun r member => controls r (inText.subset member), ?_⟩
    · obtain ⟨r, others, rfl⟩ := List.exists_cons_of_ne_nil nonempty
      rw [encodeRunes_cons]
      intro empty
      exact utf8EncodeChar_ne_nil r (List.append_eq_nil_iff.mp empty).1
    · refine Nat.le_trans cut.length_le ?_
      rw [List.length_take]
      exact Nat.min_le_left _ _
    · intro r first
      obtain ⟨others, rfl⟩ := inText
      refine front r ?_
      rw [List.head?_append, first]
      rfl

end ExitfyCores.Bridge
