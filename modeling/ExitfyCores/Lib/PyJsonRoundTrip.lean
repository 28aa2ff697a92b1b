/-
Module: ExitfyCores.Lib.PyJsonRoundTrip
Layer: Lib
Purpose: What `json.dumps` writes of a plain value, `json.loads` reads back.
Imports: ExitfyCores.Lib.PyCodec, ExitfyCores.Lib.Raise
Trusted boundary: none
Main exports: PlainText, Plain, plainItems_iff, plainEntries_iff, ascii_dumps, parseValue_dumps, loadsText_dumps, dumps_injective
Open obligations: none
-/
import ExitfyCores.Lib.PyCodec
import ExitfyCores.Lib.Raise

namespace ExitfyCores.Py

/-! ### Plain values -/

/-- Printable ASCII that a string holds as it is. -/
def PlainText (value : Text) : Prop := ∀ c ∈ value, 32 ≤ c ∧ c ≤ 126 ∧ c ≠ 34 ∧ c ≠ 92

instance (value : Text) : Decidable (PlainText value) := inferInstanceAs (Decidable (∀ c ∈ value, _))

mutual

/-- Values whose strings need no escape, whose integers `int` reads, and whose keys do not repeat. -/
def Plain : Value → Prop
  | .none => True
  | .bool _ => True
  | .int value => (decimal value.natAbs).length ≤ maxStrDigits
  | .float _ => False
  | .str value => PlainText value
  | .list items => PlainItems items
  | .dict entries => PlainEntries entries ∧ (entries.map Prod.fst).Nodup

def PlainItems : List Value → Prop
  | [] => True
  | item :: items => Plain item ∧ PlainItems items

def PlainEntries : List (Text × Value) → Prop
  | [] => True
  | (key, value) :: entries => PlainText key ∧ Plain value ∧ PlainEntries entries

end

theorem plainItems_iff {items : List Value} : PlainItems items ↔ ∀ item ∈ items, Plain item := by
  induction items with
  | nil => simp [PlainItems]
  | cons item items ih => simp [PlainItems, ih]

theorem plainEntries_iff {entries : List (Text × Value)} :
    PlainEntries entries ↔ ∀ entry ∈ entries, PlainText entry.1 ∧ Plain entry.2 := by
  induction entries with
  | nil => simp [PlainEntries]
  | cons entry entries ih =>
      obtain ⟨key, value⟩ := entry
      simp only [PlainEntries, ih, List.forall_mem_cons, and_assoc]

/-- What stands behind a value goes on with no digit, point or exponent. -/
def Delimited (rest : Text) : Prop := ∀ c ∈ rest.head?, isDigit c = false ∧ c ≠ 46 ∧ c ≠ 101 ∧ c ≠ 69

/-- What stands behind a value after blanks: a comma, a bracket or a brace. -/
def Closes (rest : Text) : Prop := ∃ c tail, rest = c :: tail ∧ (c = 44 ∨ c = 93 ∨ c = 125)

/-! ### Blanks -/

theorem skipSpace_blank {blank rest : Text} (isBlank : blank.all isJsonSpace = true) :
    skipSpace (blank ++ rest) = skipSpace rest := by
  have all : ∀ c ∈ blank, isJsonSpace c = true := List.all_eq_true.mp isBlank
  exact List.dropWhile_append_of_pos all

theorem skipSpace_cons {c : Nat} {rest : Text} (visible : isJsonSpace c = false) :
    skipSpace (c :: rest) = c :: rest := by
  simp [skipSpace, visible]

theorem Closes.skipSpace {rest : Text} (closes : Closes rest) : skipSpace rest = rest := by
  obtain ⟨c, tail, rfl, rfl | rfl | rfl⟩ := closes <;> exact skipSpace_cons rfl

theorem Closes.delimited {blank rest : Text} (isBlank : blank.all isJsonSpace = true) (closes : Closes rest) :
    Delimited (blank ++ rest) := by
  intro c first
  cases blank with
  | nil =>
      obtain ⟨d, tail, rfl, closing⟩ := closes
      obtain rfl : d = c := by simpa using first
      rcases closing with rfl | rfl | rfl <;> decide
  | cons d blank =>
      obtain rfl : d = c := by simpa using first
      have space : isJsonSpace d = true := List.all_eq_true.mp isBlank d List.mem_cons_self
      simp only [isJsonSpace, Bool.or_eq_true, beq_iff_eq] at space
      rcases space with ((rfl | rfl) | rfl) | rfl <;> decide

/-! ### Strings -/

theorem flatMap_escape {value : Text} (plain : PlainText value) : value.flatMap escape = value := by
  induction value with
  | nil => rfl
  | cons c rest ih =>
      obtain ⟨low, high, noQuote, noBackslash⟩ := plain c List.mem_cons_self
      have self : escape c = [c] := by
        unfold escape
        rw [if_neg noQuote, if_neg noBackslash]
        repeat rw [if_neg (by omega)]
        rw [if_pos ⟨low, high⟩]
      rw [List.flatMap_cons, self, ih (fun d member => plain d (List.mem_cons_of_mem _ member))]
      rfl

theorem quote_plain {value : Text} (plain : PlainText value) : quote value = 34 :: (value ++ [34]) := by
  rw [quote, flatMap_escape plain]

theorem scanString_plain {value : Text} (plain : PlainText value) {fuel : Nat} (rest : Text)
    (enough : value.length < fuel) : scanString fuel (value ++ 34 :: rest) = .ok (value, rest) := by
  induction value generalizing fuel with
  | nil =>
      obtain ⟨fuel, rfl⟩ := Nat.exists_eq_succ_of_ne_zero (Nat.ne_of_gt enough)
      rfl
  | cons c value ih =>
      obtain ⟨fuel, rfl⟩ := Nat.exists_eq_succ_of_ne_zero (Nat.ne_of_gt (Nat.zero_lt_of_lt enough))
      obtain ⟨low, _, noQuote, noBackslash⟩ := plain c List.mem_cons_self
      have tail := ih (fun d member => plain d (List.mem_cons_of_mem _ member)) (Nat.lt_of_succ_lt_succ enough)
      rw [List.cons_append, scanString, if_neg noQuote, if_neg noBackslash, if_neg (Nat.not_lt.mpr low), tail]
      rfl

/-! ### Numbers -/

theorem scanDigits_decimal (value : Nat) {rest : Text} (delimited : Delimited rest) :
    scanDigits (decimal value ++ rest) = some (decimal value, rest) := by
  rcases Nat.eq_zero_or_pos value with rfl | positive
  · rfl
  · have numeral := isNumeral_decimal positive
    cases digits : decimal value with
    | nil => exact absurd digits (decimal_ne_nil value)
    | cons c tail =>
        rw [digits] at numeral
        simp only [isNumeral, Bool.and_eq_true, decide_eq_true_eq, List.all_eq_true] at numeral
        obtain ⟨⟨low, high⟩, allDigits⟩ := numeral
        have notZero : c ≠ 48 := by omega
        have noDigit : rest.takeWhile isDigit = [] ∧ rest.dropWhile isDigit = rest := by
          cases rest with
          | nil => simp
          | cons d rest => simp [(delimited d rfl).1]
        rw [List.cons_append, scanDigits, if_pos ⟨low, high⟩, List.takeWhile_append_of_pos allDigits,
          List.dropWhile_append_of_pos allDigits, noDigit.1, noDigit.2, List.append_nil]
        exact notZero

theorem finishNumber_decimal (negative : Bool) (value : Nat) {rest : Text} (delimited : Delimited rest)
    (short : (decimal value).length ≤ maxStrDigits) :
    finishNumber negative (decimal value) rest = .ok (.int (if negative then -(value : Int) else value), rest) := by
  have fraction : scanFraction rest = ([], rest) := by
    cases rest with
    | nil => rfl
    | cons c rest =>
        have noPoint := (delimited c rfl).2.1
        simp [scanFraction, noPoint]
  have exponent : scanExponent rest = ([], rest) := by
    cases rest with
    | nil => rfl
    | cons c rest =>
        obtain ⟨_, _, noLower, noUpper⟩ := delimited c rfl
        simp [scanExponent, noLower, noUpper]
  have parsed : parseInt (decimal value) = .ok value := by
    rw [parseInt, if_neg (Nat.not_lt.mpr short), numeralValue_decimal]
  simp [finishNumber, fraction, exponent, parsed]

theorem decimal_head (value : Nat) : ∃ c tail, decimal value = c :: tail ∧ 48 ≤ c ∧ c ≤ 57 := by
  have allDigits := all_isDigit_decimal value
  cases digits : decimal value with
  | nil => exact absurd digits (decimal_ne_nil value)
  | cons c tail =>
      rw [digits] at allDigits
      simp only [List.all_cons, isDigit, Bool.and_eq_true, decide_eq_true_eq] at allDigits
      exact ⟨c, tail, rfl, allDigits.1⟩

theorem scanScalar_intText {value : Int} (short : (decimal value.natAbs).length ≤ maxStrDigits) {rest : Text}
    (delimited : Delimited rest) : scanScalar (intText value ++ rest) = .ok (.int value, rest) := by
  cases value with
  | ofNat value =>
      obtain ⟨c, tail, head, low, high⟩ := decimal_head value
      have positive : scanNumber (decimal value ++ rest) =
          (scanDigits (decimal value ++ rest)).map fun digits => finishNumber false digits.1 digits.2 := by
        have notMinus : c ≠ 45 := by omega
        simp [scanNumber, head, notMinus]
      simp only [intText, scanScalar, positive, scanDigits_decimal value delimited, Option.map_some]
      exact finishNumber_decimal false value delimited short
  | negSucc value =>
      simp only [intText, scanScalar, scanNumber, List.cons_append, scanDigits_decimal (value + 1) delimited,
        Option.map_some]
      exact finishNumber_decimal true (value + 1) delimited short

/-! ### Values -/

theorem parseValue_scalar {c fuel : Nat} {rest : Text} (noQuote : c ≠ 34) (noBracket : c ≠ 91) (noBrace : c ≠ 123) :
    parseValue (fuel + 1) (c :: rest) = scanScalar (c :: rest) := by
  unfold parseValue
  split <;> simp_all

/-- A value starts with no blank and no closing bracket. -/
theorem dumps_head (style : Style) (depth : Nat) {value : Value} (plain : Plain value) :
    ∃ c tail, dumps style depth value = c :: tail ∧ isJsonSpace c = false ∧ c ≠ 93 := by
  cases value with
  | none => exact ⟨110, text "ull", by simp [dumps]; rfl, rfl, by decide⟩
  | bool value =>
      cases value
      · exact ⟨102, text "alse", by simp [dumps]; rfl, rfl, by decide⟩
      · exact ⟨116, text "rue", by simp [dumps]; rfl, rfl, by decide⟩
  | int value =>
      cases value with
      | ofNat value =>
          obtain ⟨c, tail, head, low, high⟩ := decimal_head value
          refine ⟨c, tail, by simp [dumps, intText, head], ?_, by omega⟩
          simp [isJsonSpace]
          omega
      | negSucc value => exact ⟨45, decimal (value + 1), by simp [dumps, intText], rfl, by decide⟩
  | float literal => exact absurd plain (by simp [Plain])
  | str value => exact ⟨34, _, by simp only [dumps, quote]; rfl, rfl, by decide⟩
  | list items =>
      cases items with
      | nil => exact ⟨91, [93], by simp [dumps]; rfl, rfl, by decide⟩
      | cons item items => exact ⟨91, _, by simp only [dumps]; rfl, rfl, by decide⟩
  | dict entries =>
      cases entries with
      | nil => exact ⟨123, [125], by simp [dumps]; rfl, rfl, by decide⟩
      | cons entry entries => exact ⟨123, _, by simp only [dumps]; rfl, rfl, by decide⟩

/-- Blanks in front of a value are skipped. -/
theorem skipSpace_dumps {style : Style} {depth : Nat} {value : Value} (plain : Plain value) {blank : Text}
    (isBlank : blank.all isJsonSpace = true) (rest : Text) :
    skipSpace (blank ++ (dumps style depth value ++ rest)) = dumps style depth value ++ rest := by
  obtain ⟨c, tail, head, visible, _⟩ := dumps_head style depth plain
  rw [skipSpace_blank isBlank, head, List.cons_append, skipSpace_cons visible]

theorem delimited_dumpsItems (style : Style) (depth : Nat) (items : List Value) {blank : Text}
    (isBlank : blank.all isJsonSpace = true) (rest : Text) :
    Delimited (dumpsItems style depth items ++ (blank ++ 93 :: rest)) := by
  cases items with
  | nil =>
      rw [dumpsItems, List.nil_append]
      exact Closes.delimited isBlank ⟨93, rest, rfl, Or.inr (Or.inl rfl)⟩
  | cons item items =>
      rw [dumpsItems]
      exact @Closes.delimited [] _ rfl ⟨44, _, rfl, Or.inl rfl⟩

theorem delimited_dumpsEntries (style : Style) (depth : Nat) (entries : List (Text × Value)) {blank : Text}
    (isBlank : blank.all isJsonSpace = true) (rest : Text) :
    Delimited (dumpsEntries style depth entries ++ (blank ++ 125 :: rest)) := by
  cases entries with
  | nil =>
      rw [dumpsEntries, List.nil_append]
      exact Closes.delimited isBlank ⟨125, rest, rfl, Or.inr (Or.inr rfl)⟩
  | cons entry entries =>
      obtain ⟨key, value⟩ := entry
      rw [dumpsEntries]
      exact @Closes.delimited [] _ rfl ⟨44, _, rfl, Or.inl rfl⟩

/-- Where no key repeats, the dictionary is the list of its entries. -/
theorem foldl_insertEntry {done entries : List (Text × Value)}
    (distinct : ((done ++ entries).map Prod.fst).Nodup) : entries.foldl insertEntry done = done ++ entries := by
  induction entries generalizing done with
  | nil => simp
  | cons entry entries ih =>
      have fresh : (done.any fun old => old.1 = entry.1) = false := by
        rw [List.map_append, List.map_cons, List.nodup_append] at distinct
        simp only [List.any_eq_false, decide_eq_true_eq]
        intro old member same
        exact distinct.2.2 old.1 (List.mem_map_of_mem member) entry.1 List.mem_cons_self same
      rw [List.foldl_cons, insertEntry, if_neg (by simp [fresh]), ih (by simpa using distinct)]
      simp

/-! ### What the scanners do -/

theorem parseValue_list {fuel : Nat} {rest inner after : Text} {items : List Value} (skipped : skipSpace rest = inner)
    (open_ : ∀ tail, inner ≠ 93 :: tail) (parsed : parseItems fuel inner = .ok (items, after)) :
    parseValue (fuel + 1) (91 :: rest) = .ok (.list items, after) := by
  rw [parseValue, skipped]
  split
  · exact absurd rfl (open_ _)
  · rw [parsed]
    rfl

theorem parseValue_dict {fuel : Nat} {rest inner after : Text} {entries : List (Text × Value)}
    (skipped : skipSpace rest = 34 :: inner) (parsed : parseEntries fuel (34 :: inner) = .ok (entries, after))
    (distinct : (entries.map Prod.fst).Nodup) :
    parseValue (fuel + 1) (123 :: rest) = .ok (.dict entries, after) := by
  have dict : entries.foldl insertEntry [] = entries := foldl_insertEntry distinct
  rw [parseValue, skipped]
  change (parseEntries fuel (34 :: inner) >>= _) = _
  rw [parsed, ok_bind]
  dsimp only
  rw [dict]
  rfl

theorem parseItems_last {fuel : Nat} {value rest after : Text} {item : Value}
    (parsed : parseValue fuel value = .ok (item, rest)) (closed : skipSpace rest = 93 :: after) :
    parseItems (fuel + 1) value = .ok ([item], after) := by
  rw [parseItems, parsed, ok_bind]
  dsimp only
  rw [closed]
  rfl

theorem parseItems_more {fuel : Nat} {value rest more after : Text} {item : Value} {items : List Value}
    (parsed : parseValue fuel value = .ok (item, rest)) (comma : skipSpace rest = 44 :: more)
    (others : parseItems fuel (skipSpace more) = .ok (items, after)) :
    parseItems (fuel + 1) value = .ok (item :: items, after) := by
  rw [parseItems, parsed, ok_bind]
  dsimp only
  rw [comma]
  change (parseItems fuel (skipSpace more) >>= _) = _
  rw [others]
  rfl

theorem parseEntries_last {fuel : Nat} {name rest colon behind after : Text} {key : Text} {value : Value}
    (scanned : scanString fuel name = .ok (key, rest)) (isColon : skipSpace rest = 58 :: colon)
    (parsed : parseValue fuel (skipSpace colon) = .ok (value, behind)) (closed : skipSpace behind = 125 :: after) :
    parseEntries (fuel + 1) (34 :: name) = .ok ([(key, value)], after) := by
  rw [parseEntries, scanned, ok_bind]
  dsimp only
  rw [isColon]
  change (parseValue fuel (skipSpace colon) >>= _) = _
  rw [parsed, ok_bind]
  dsimp only
  rw [closed]
  rfl

theorem parseEntries_more {fuel : Nat} {name rest colon behind more after : Text} {key : Text} {value : Value}
    {entries : List (Text × Value)} (scanned : scanString fuel name = .ok (key, rest))
    (isColon : skipSpace rest = 58 :: colon) (parsed : parseValue fuel (skipSpace colon) = .ok (value, behind))
    (comma : skipSpace behind = 44 :: more) (others : parseEntries fuel (skipSpace more) = .ok (entries, after)) :
    parseEntries (fuel + 1) (34 :: name) = .ok ((key, value) :: entries, after) := by
  rw [parseEntries, scanned, ok_bind]
  dsimp only
  rw [isColon]
  change (parseValue fuel (skipSpace colon) >>= _) = _
  rw [parsed, ok_bind]
  dsimp only
  rw [comma]
  change (parseEntries fuel (skipSpace more) >>= _) = _
  rw [others]
  rfl

/-! ### Reading back

Each scanner hands the rest of its work to a scanner with one unit of fuel less, so the three statements are proved
together by induction on the fuel. -/

section

variable (style : Style) (fuel : Nat)

/-- With this fuel a value that is not longer is read back. -/
def ReadsValues : Prop :=
  ∀ value, Plain value → ∀ depth rest, Delimited rest → (dumps style depth value).length ≤ fuel →
    parseValue fuel (dumps style depth value ++ rest) = .ok (value, rest)

/-- With this fuel the items of an array are read back. -/
def ReadsItems : Prop :=
  ∀ item items, Plain item → PlainItems items → ∀ depth blank rest, blank.all isJsonSpace = true →
    (dumps style depth item ++ (dumpsItems style depth items ++ (blank ++ [93]))).length ≤ fuel →
    parseItems fuel (dumps style depth item ++ (dumpsItems style depth items ++ (blank ++ 93 :: rest))) =
      .ok (item :: items, rest)

/-- With this fuel the entries of an object are read back. -/
def ReadsEntries : Prop :=
  ∀ key value entries, PlainText key → Plain value → PlainEntries entries → ∀ depth blank rest,
    blank.all isJsonSpace = true →
    (34 :: (key ++ 34 :: 58 :: (style.space ++ (dumps style depth value ++
      (dumpsEntries style depth entries ++ (blank ++ [125])))))).length ≤ fuel →
    parseEntries fuel (34 :: (key ++ 34 :: 58 :: (style.space ++ (dumps style depth value ++
      (dumpsEntries style depth entries ++ (blank ++ 125 :: rest)))))) = .ok ((key, value) :: entries, rest)

end

variable {style : Style} {fuel : Nat}

theorem intText_head (value : Int) : ∃ c tail, intText value = c :: tail ∧ 45 ≤ c ∧ c ≤ 57 := by
  cases value with
  | ofNat value =>
      obtain ⟨c, tail, head, low, high⟩ := decimal_head value
      exact ⟨c, tail, head, by omega, high⟩
  | negSucc value => exact ⟨45, _, rfl, by decide, by decide⟩

theorem readsValues_succ (readsItems : ReadsItems style fuel) (readsEntries : ReadsEntries style fuel) :
    ReadsValues style (fuel + 1) := by
  intro value plain depth rest delimited enough
  match value, plain with
  | .none, _ => rw [dumps]; rfl
  | .bool true, _ => rw [dumps]; rfl
  | .bool false, _ => rw [dumps]; rfl
  | .int value, short =>
      have scanned := scanScalar_intText short delimited
      obtain ⟨c, tail, head, low, high⟩ := intText_head value
      rw [dumps]
      rw [head, List.cons_append] at scanned ⊢
      rw [parseValue_scalar (by omega) (by omega) (by omega), scanned]
  | .str value, plain =>
      rw [dumps, quote_plain plain] at enough ⊢
      simp only [List.length_cons, List.length_append] at enough
      have scanned : scanString fuel (value ++ 34 :: rest) = .ok (value, rest) := scanString_plain plain rest (by omega)
      simp only [List.cons_append, List.append_assoc, List.nil_append, parseValue, scanned]
      rfl
  | .list [], _ => rw [dumps]; rfl
  | .list (item :: items), ⟨plainItem, plainItems⟩ =>
      rw [dumps] at enough ⊢
      simp only [List.length_cons, List.length_append] at enough
      have parsed := readsItems item items plainItem plainItems (depth + 1) (style.newline depth) rest
        (style.blank depth) (by simp only [List.length_cons, List.length_append]; omega)
      obtain ⟨c, tail, head, _, noBracket⟩ := dumps_head style (depth + 1) plainItem
      simp only [List.cons_append, List.append_assoc, List.nil_append]
      refine parseValue_list (skipSpace_dumps plainItem (style.blank (depth + 1)) _) ?_ parsed
      intro other same
      rw [head] at same
      exact noBracket (List.cons.inj same).1
  | .dict [], _ => rw [dumps]; rfl
  | .dict ((key, value) :: entries), ⟨⟨plainKey, plainValue, plainEntries⟩, distinct⟩ =>
      rw [dumps, quote_plain plainKey] at enough ⊢
      simp only [List.length_cons, List.length_append] at enough
      have parsed := readsEntries key value entries plainKey plainValue plainEntries (depth + 1) (style.newline depth)
        rest (style.blank depth) (by simp only [List.length_cons, List.length_append]; omega)
      simp only [List.cons_append, List.append_assoc, List.nil_append]
      refine parseValue_dict ?_ parsed distinct
      rw [skipSpace_blank (style.blank (depth + 1)), skipSpace_cons rfl]

theorem readsItems_succ (readsValues : ReadsValues style fuel) (readsItems : ReadsItems style fuel) :
    ReadsItems style (fuel + 1) := by
  intro item items plainItem plainItems depth blank rest isBlank enough
  simp only [List.length_append] at enough
  obtain ⟨c, tail, head, _⟩ := dumps_head style depth plainItem
  have nonempty : 0 < (dumps style depth item).length := by simp [head]
  have parsed := readsValues item plainItem depth _ (delimited_dumpsItems style depth items isBlank rest)
    (by simp only [List.length_singleton] at enough; omega)
  match items, plainItems with
  | [], _ =>
      refine parseItems_last parsed ?_
      rw [dumpsItems, List.nil_append, skipSpace_blank isBlank, skipSpace_cons rfl]
  | next :: items, ⟨plainNext, plainItems⟩ =>
      rw [dumpsItems] at enough parsed ⊢
      simp only [List.length_cons, List.length_append] at enough
      have others := readsItems next items plainNext plainItems depth blank rest isBlank
        (by simp only [List.length_append, List.length_cons]; omega)
      simp only [List.cons_append, List.append_assoc] at parsed ⊢
      refine parseItems_more parsed (skipSpace_cons rfl) ?_
      rw [skipSpace_dumps plainNext (style.blank depth)]
      exact others

theorem readsEntries_succ (readsValues : ReadsValues style fuel) (readsEntries : ReadsEntries style fuel) :
    ReadsEntries style (fuel + 1) := by
  intro key value entries plainKey plainValue plainEntries depth blank rest isBlank enough
  simp only [List.length_cons, List.length_append] at enough
  have parsed := readsValues value plainValue depth _ (delimited_dumpsEntries style depth entries isBlank rest)
    (by omega)
  rw [← skipSpace_dumps plainValue style.spaceBlank] at parsed
  have scanned := @scanString_plain key plainKey fuel (58 :: (style.space ++ (dumps style depth value ++
    (dumpsEntries style depth entries ++ (blank ++ 125 :: rest))))) (by omega)
  match entries, plainEntries with
  | [], _ =>
      refine parseEntries_last scanned (skipSpace_cons rfl) parsed ?_
      rw [dumpsEntries, List.nil_append, skipSpace_blank isBlank, skipSpace_cons rfl]
  | (nextKey, next) :: entries, ⟨plainNextKey, plainNext, plainEntries⟩ =>
      rw [dumpsEntries, quote_plain plainNextKey] at enough parsed scanned ⊢
      simp only [List.length_cons, List.length_append] at enough
      have others := readsEntries nextKey next entries plainNextKey plainNext plainEntries depth blank rest isBlank
        (by simp only [List.length_cons, List.length_append]; omega)
      simp only [List.cons_append, List.append_assoc, List.nil_append] at parsed scanned ⊢
      refine parseEntries_more scanned (skipSpace_cons rfl) parsed (skipSpace_cons rfl) ?_
      rw [skipSpace_blank (style.blank depth), skipSpace_cons rfl]
      exact others

theorem reads (style : Style) (fuel : Nat) :
    ReadsValues style fuel ∧ ReadsItems style fuel ∧ ReadsEntries style fuel := by
  induction fuel with
  | zero =>
      refine ⟨?_, ?_, ?_⟩
      · intro value plain depth rest _ enough
        obtain ⟨c, tail, head, _⟩ := dumps_head style depth plain
        simp [head] at enough
      · intro item items _ _ depth blank rest _ enough
        simp at enough
      · intro key value entries _ _ _ depth blank rest _ enough
        simp at enough
  | succ fuel ih =>
      obtain ⟨readsValues, readsItems, readsEntries⟩ := ih
      exact ⟨readsValues_succ readsItems readsEntries, readsItems_succ readsValues readsItems,
        readsEntries_succ readsValues readsEntries⟩

/-! ### Characters of a written value -/

theorem ascii_append {first second : Text} (one : Ascii first) (two : Ascii second) : Ascii (first ++ second) :=
  List.forall_mem_append.mpr ⟨one, two⟩

theorem ascii_cons {c : Nat} {rest : Text} (one : 0 < c ∧ c < 128) (two : Ascii rest) : Ascii (c :: rest) :=
  List.forall_mem_cons.mpr ⟨one, two⟩

theorem ascii_blank {blank : Text} (isBlank : blank.all isJsonSpace = true) : Ascii blank := by
  intro c member
  have space := List.all_eq_true.mp isBlank c member
  simp only [isJsonSpace, Bool.or_eq_true, beq_iff_eq] at space
  omega

theorem ascii_decimal (value : Nat) : Ascii (decimal value) := by
  intro c member
  have digit := List.all_eq_true.mp (all_isDigit_decimal value) c member
  simp only [isDigit, Bool.and_eq_true, decide_eq_true_eq] at digit
  omega

theorem ascii_hexQuad (code : Nat) : Ascii (hexQuad code) := by
  have digits : ∀ digit < 16, 0 < digit.digitChar.toNat ∧ digit.digitChar.toNat < 128 := by decide
  intro c member
  obtain ⟨digit, _, rfl⟩ := List.mem_map.mp member
  exact digits _ (Nat.mod_lt _ (by decide))

theorem ascii_escape (c : Nat) : Ascii (escape c) := by
  have marker : Ascii (text "\\u") := by simp [text, Ascii]
  unfold escape
  iterate 7 (split; · simp [text, Ascii])
  split
  · next range => exact ascii_cons (by omega) (by simp [Ascii])
  · split
    · exact ascii_append marker (ascii_hexQuad c)
    · exact ascii_append (ascii_append (ascii_append marker (ascii_hexQuad _)) marker) (ascii_hexQuad _)

theorem ascii_quote (value : Text) : Ascii (quote value) := by
  rw [quote]
  refine ascii_cons (by decide) (ascii_append ?_ (by simp [Ascii]))
  intro c member
  obtain ⟨d, _, member⟩ := List.mem_flatMap.mp member
  exact ascii_escape d c member

mutual

/-- Values whose floats are kept by literals in ASCII. -/
def AsciiFloats : Value → Prop
  | .float literal => Ascii literal
  | .list items => AsciiFloatsItems items
  | .dict entries => AsciiFloatsEntries entries
  | _ => True

def AsciiFloatsItems : List Value → Prop
  | [] => True
  | item :: items => AsciiFloats item ∧ AsciiFloatsItems items

def AsciiFloatsEntries : List (Text × Value) → Prop
  | [] => True
  | entry :: entries => AsciiFloats entry.2 ∧ AsciiFloatsEntries entries

end

mutual

theorem Plain.asciiFloats : ∀ {value : Value}, Plain value → AsciiFloats value
  | .none, _ | .bool _, _ | .int _, _ | .str _, _ => trivial
  | .list items, plain => @plainItems_asciiFloats items plain
  | .dict entries, plain => @plainEntries_asciiFloats entries plain.1

theorem plainItems_asciiFloats : ∀ {items : List Value}, PlainItems items → AsciiFloatsItems items
  | [], _ => trivial
  | _ :: _, plain => ⟨plain.1.asciiFloats, plainItems_asciiFloats plain.2⟩

theorem plainEntries_asciiFloats : ∀ {entries : List (Text × Value)}, PlainEntries entries → AsciiFloatsEntries entries
  | [], _ => trivial
  | _ :: _, plain => ⟨plain.2.1.asciiFloats, plainEntries_asciiFloats plain.2.2⟩

end

mutual

/-- What is written under `ensure_ascii` is ASCII. -/
theorem ascii_dumps_floats (style : Style) (depth : Nat) :
    ∀ {value : Value}, AsciiFloats value → Ascii (dumps style depth value)
  | .none, _ => by simp [dumps, text, Ascii]
  | .bool true, _ => by simp [dumps, text, Ascii]
  | .bool false, _ => by simp [dumps, text, Ascii]
  | .int (.ofNat value), _ => by
      rw [dumps]
      exact ascii_decimal value
  | .int (.negSucc value), _ => by
      rw [dumps]
      exact ascii_cons (by decide) (ascii_decimal (value + 1))
  | .float literal, ascii => by
      rw [dumps]
      exact ascii
  | .str value, _ => by
      rw [dumps]
      exact ascii_quote value
  | .list [], _ => by simp [dumps, text, Ascii]
  | .list (item :: items), ascii => by
      rw [dumps]
      refine ascii_cons (by decide) (ascii_append (ascii_blank (style.blank _)) ?_)
      refine ascii_append (ascii_dumps_floats style (depth + 1) ascii.1) (ascii_append ?_ ?_)
      · exact ascii_dumpsItems style (depth + 1) ascii.2
      · exact ascii_append (ascii_blank (style.blank _)) (by simp [Ascii])
  | .dict [], _ => by simp [dumps, text, Ascii]
  | .dict ((key, value) :: entries), ascii => by
      rw [dumps]
      refine ascii_cons (by decide) (ascii_append (ascii_blank (style.blank _)) (ascii_append (ascii_quote key) ?_))
      refine ascii_cons (by decide) (ascii_append (ascii_blank style.spaceBlank) ?_)
      refine ascii_append (ascii_dumps_floats style (depth + 1) ascii.1) (ascii_append ?_ ?_)
      · exact ascii_dumpsEntries style (depth + 1) ascii.2
      · exact ascii_append (ascii_blank (style.blank _)) (by simp [Ascii])

theorem ascii_dumpsItems (style : Style) (depth : Nat) :
    ∀ {items : List Value}, AsciiFloatsItems items → Ascii (dumpsItems style depth items)
  | [], _ => by simp [dumpsItems, Ascii]
  | item :: items, ascii => by
      rw [dumpsItems]
      refine ascii_cons (by decide) (ascii_append (ascii_blank (style.blank _)) ?_)
      exact ascii_append (ascii_dumps_floats style depth ascii.1) (ascii_dumpsItems style depth ascii.2)

theorem ascii_dumpsEntries (style : Style) (depth : Nat) :
    ∀ {entries : List (Text × Value)}, AsciiFloatsEntries entries → Ascii (dumpsEntries style depth entries)
  | [], _ => by simp [dumpsEntries, Ascii]
  | (key, value) :: entries, ascii => by
      rw [dumpsEntries]
      refine ascii_cons (by decide) (ascii_append (ascii_blank (style.blank _)) (ascii_append (ascii_quote key) ?_))
      refine ascii_cons (by decide) (ascii_append (ascii_blank style.spaceBlank) ?_)
      exact ascii_append (ascii_dumps_floats style depth ascii.1) (ascii_dumpsEntries style depth ascii.2)

end

theorem ascii_dumps (style : Style) (depth : Nat) {value : Value} (plain : Plain value) :
    Ascii (dumps style depth value) := ascii_dumps_floats style depth plain.asciiFloats

/-! ### The round trip -/

/-- Reading back a value. -/
theorem parseValue_dumps (style : Style) {value : Value} (plain : Plain value) {depth fuel : Nat} {rest : Text}
    (delimited : Delimited rest) (enough : (dumps style depth value).length ≤ fuel) :
    parseValue fuel (dumps style depth value ++ rest) = .ok (value, rest) :=
  (reads style fuel).1 value plain depth rest delimited enough

/-- `json.loads(json.dumps(value) + blanks)` -/
theorem loadsText_dumps (style : Style) {value : Value} (plain : Plain value) {blank : Text}
    (isBlank : blank.all isJsonSpace = true) : loadsText (dumps style 0 value ++ blank) = .ok value := by
  have nothing : skipSpace blank = [] := by
    rw [← List.append_nil blank, skipSpace_blank isBlank]
    rfl
  have delimited : Delimited blank := by
    cases blank with
    | nil =>
        intro c first
        cases first
    | cons c tail =>
        have space : isJsonSpace c = true := List.all_eq_true.mp isBlank c List.mem_cons_self
        intro d first
        obtain rfl : c = d := by simpa using first
        simp only [isJsonSpace, Bool.or_eq_true, beq_iff_eq] at space
        rcases space with ((rfl | rfl) | rfl) | rfl <;> decide
  have skipped := @skipSpace_dumps style 0 value plain [] rfl blank
  rw [List.nil_append] at skipped
  rw [loadsText, skipped, parseValue_dumps style plain delimited (by simp; omega), ok_bind]
  dsimp only
  rw [if_pos nothing]
  rfl

/-- Plain values that are written alike are alike. -/
theorem dumps_injective (style : Style) {first second : Value} (plainFirst : Plain first) (plainSecond : Plain second)
    (same : dumps style 0 first = dumps style 0 second) : first = second := by
  have one := @loadsText_dumps style first plainFirst [] rfl
  have two := @loadsText_dumps style second plainSecond [] rfl
  rw [same, two] at one
  exact (Except.ok.inj one).symm

end ExitfyCores.Py
