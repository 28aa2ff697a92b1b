/-
Module: ExitfyCores.Lib.PyJsonDigits
Layer: Lib
Purpose: What every value of `json.loads` satisfies, by the cases of the scanner; no integer among them has more
  digits than `int` reads.
Imports: ExitfyCores.Lib.PyCodec
Trusted boundary: none
Main exports: Short, Short.get, Scanned, loads_good, loads_short
Open obligations: none
-/
import ExitfyCores.Lib.PyCodec

namespace ExitfyCores.Py

mutual

/-- Values whose integers have no more digits than `int` reads. -/
def Short : Value → Prop
  | .int value => (decimal value.natAbs).length ≤ maxStrDigits
  | .list items => ShortItems items
  | .dict entries => ShortEntries entries
  | _ => True

def ShortItems : List Value → Prop
  | [] => True
  | item :: items => Short item ∧ ShortItems items

def ShortEntries : List (Text × Value) → Prop
  | [] => True
  | entry :: entries => Short entry.2 ∧ ShortEntries entries

end

theorem shortItems_iff {items : List Value} : ShortItems items ↔ ∀ item ∈ items, Short item := by
  induction items with
  | nil => simp [ShortItems]
  | cons item items ih => simp [ShortItems, ih]

theorem shortEntries_iff {entries : List (Text × Value)} : ShortEntries entries ↔ ∀ entry ∈ entries, Short entry.2 := by
  induction entries with
  | nil => simp [ShortEntries]
  | cons entry entries ih => simp only [ShortEntries, ih, List.forall_mem_cons]

/-- What stands under a key of a short dictionary is short. -/
theorem Short.get {entries : Object} (short : ShortEntries entries) (key : String) : Short (entries.get key) := by
  unfold Object.get
  cases found : entries.find? fun entry => entry.1 = text key with
  | none => simp [Short]
  | some entry => exact shortEntries_iff.mp short entry (List.mem_of_find?_eq_some found)

/-! ### Numbers -/

theorem numeralValue_lt {digits : Text} (allDigits : digits.all isDigit = true) :
    numeralValue digits < 10 ^ digits.length := by
  have loop : ∀ (rest : Text) start, rest.all isDigit = true →
      rest.foldl (fun value c => 10 * value + (c - 48)) start < (start + 1) * 10 ^ rest.length := by
    intro rest
    induction rest with
    | nil => simp
    | cons c rest ih =>
        intro start digits
        simp only [List.all_cons, Bool.and_eq_true, isDigit, decide_eq_true_eq] at digits
        obtain ⟨⟨low, high⟩, digits⟩ := digits
        have tail := ih (10 * start + (c - 48)) digits
        have first : 10 * start + (c - 48) + 1 ≤ (start + 1) * 10 := by omega
        calc _ < (10 * start + (c - 48) + 1) * 10 ^ rest.length := tail
          _ ≤ (start + 1) * 10 * 10 ^ rest.length := Nat.mul_le_mul_right _ first
          _ = (start + 1) * 10 ^ (c :: rest).length := by rw [List.length_cons, Nat.pow_succ', Nat.mul_assoc]
  simpa [numeralValue] using loop digits 0 allDigits

theorem length_decimal_le {value bound : Nat} (positive : 0 < bound) :
    (decimal value).length ≤ bound ↔ value < 10 ^ bound := by
  rw [decimal, List.length_map]
  exact Nat.length_toDigits_le_iff (by decide) positive

theorem parseInt_short {digits : Text} {value : Nat} (allDigits : digits.all isDigit = true)
    (parsed : parseInt digits = .ok value) : (decimal value).length ≤ maxStrDigits := by
  rw [length_decimal_le (by decide), parseInt_eq_ok parsed]
  unfold parseInt at parsed
  split at parsed
  · cases parsed
  · next short =>
      exact Nat.lt_of_lt_of_le (numeralValue_lt allDigits) (Nat.pow_le_pow_right (by decide) (Nat.le_of_not_lt short))

theorem scanDigits_all {value digits rest : Text} (scanned : scanDigits value = some (digits, rest)) :
    digits.all isDigit = true := by
  unfold scanDigits at scanned
  split at scanned
  · cases scanned
    decide
  · next c more _ =>
      split at scanned
      · next range =>
          cases scanned
          have tail : (more.takeWhile isDigit).all isDigit = true :=
            List.all_takeWhile
          rw [List.all_cons, tail, Bool.and_true, isDigit]
          simp only [Bool.and_eq_true, decide_eq_true_eq]
          omega
      · cases scanned
  · cases scanned

theorem finishNumber_short {negative : Bool} {digits rest after : Text} {value : Value}
    (allDigits : digits.all isDigit = true) (finished : finishNumber negative digits rest = .ok (value, after)) :
    Short value := by
  unfold finishNumber at finished
  simp only at finished
  split at finished
  · cases parsed : parseInt digits with
    | error message =>
        rw [parsed] at finished
        cases finished
    | ok number =>
        rw [parsed] at finished
        cases finished
        have short := parseInt_short allDigits parsed
        cases negative <;> simpa [Short] using short
  · cases finished
    simp [Short]

theorem scanNumber_short {value after : Text} {result : Value} (scanned : scanNumber value = some (.ok (result, after))) :
    Short result := by
  unfold scanNumber at scanned
  split at scanned
  all_goals
    obtain ⟨digits, found, finished⟩ := Option.map_eq_some_iff.mp scanned
    exact finishNumber_short (scanDigits_all found) finished

theorem scanScalar_short {value after : Text} {result : Value} (scanned : scanScalar value = .ok (result, after)) :
    Short result := by
  unfold scanScalar at scanned
  split at scanned
  · next outcome found => exact scanNumber_short (scanned ▸ found)
  · split at scanned
    · next constant found =>
        cases scanned
        have member := List.mem_of_find?_eq_some found
        simp only [constants, List.mem_cons, List.not_mem_nil, or_false] at member
        rcases member with rfl | rfl | rfl | rfl | rfl | rfl <;> simp [Short]
    · cases scanned

/-! ### The rule for values

The three scanners hand each other less fuel, so the statements are proved together. -/

theorem insertEntry_good {good : Value → Prop} {entries : List (Text × Value)} {entry : Text × Value}
    (each : ∀ old ∈ entries, good old.2) (goodEntry : good entry.2) : ∀ old ∈ insertEntry entries entry, good old.2 := by
  intro other member
  unfold insertEntry at member
  split at member
  · obtain ⟨old, memberOld, rfl⟩ := List.mem_map.mp member
    split
    · exact goodEntry
    · exact each old memberOld
  · rcases List.mem_append.mp member with old | new
    · exact each other old
    · exact List.mem_singleton.mp new ▸ goodEntry

theorem foldl_insertEntry_good {good : Value → Prop} {entries done : List (Text × Value)}
    (eachDone : ∀ entry ∈ done, good entry.2) (each : ∀ entry ∈ entries, good entry.2) :
    ∀ entry ∈ entries.foldl insertEntry done, good entry.2 := by
  induction entries generalizing done with
  | nil => exact eachDone
  | cons entry entries ih =>
      refine ih (insertEntry_good eachDone (each entry List.mem_cons_self)) ?_
      exact fun other member => each other (List.mem_cons_of_mem entry member)

/-- What holds of scalars and strings, and of arrays and objects whose values it holds of. -/
structure Scanned (good : Value → Prop) : Prop where
  scalar : ∀ {rest after : Text} {value : Value}, scanScalar rest = .ok (value, after) → good value
  str : ∀ value : Text, good (.str value)
  list : ∀ {items : List Value}, (∀ item ∈ items, good item) → good (.list items)
  dict : ∀ {entries : List (Text × Value)}, (∀ entry ∈ entries, good entry.2) →
    good (.dict (entries.foldl insertEntry []))

theorem parse_good {good : Value → Prop} (rules : Scanned good) (fuel : Nat) :
    (∀ rest value after, parseValue fuel rest = .ok (value, after) → good value) ∧
      (∀ rest items after, parseItems fuel rest = .ok (items, after) → ∀ item ∈ items, good item) ∧
      ∀ rest entries after, parseEntries fuel rest = .ok (entries, after) → ∀ entry ∈ entries, good entry.2 := by
  induction fuel with
  | zero =>
      refine ⟨?_, ?_, ?_⟩ <;>
        · intro rest result after parsed
          first
          | rw [parseValue] at parsed
          | rw [parseItems] at parsed
          | rw [parseEntries] at parsed
          cases parsed
  | succ fuel ih =>
      obtain ⟨values, items, entries⟩ := ih
      refine ⟨?_, ?_, ?_⟩
      · intro rest value after parsed
        unfold parseValue at parsed
        split at parsed
        · cases parsed
        · obtain ⟨_, _, parsed⟩ := bind_eq_ok parsed
          cases parsed
          exact rules.str _
        · next same =>
            cases same
            split at parsed
            · cases parsed
              exact rules.list fun item member => by cases member
            · obtain ⟨found, scanned, parsed⟩ := bind_eq_ok parsed
              cases parsed
              exact rules.list (items _ _ _ scanned)
        · next same =>
            cases same
            split at parsed
            · cases parsed
              exact @Scanned.dict good rules [] fun entry member => by cases member
            · obtain ⟨found, scanned, parsed⟩ := bind_eq_ok parsed
              cases parsed
              exact rules.dict (entries _ _ _ scanned)
        · exact rules.scalar parsed
      · intro rest found after parsed
        rw [parseItems] at parsed
        obtain ⟨⟨item, more⟩, scanned, parsed⟩ := bind_eq_ok parsed
        have first := values _ _ _ scanned
        dsimp only at parsed
        split at parsed
        · obtain ⟨others, scanned, parsed⟩ := bind_eq_ok parsed
          cases parsed
          exact List.forall_mem_cons.mpr ⟨first, items _ _ _ scanned⟩
        · cases parsed
          exact List.forall_mem_singleton.mpr first
        · cases parsed
      · intro rest found after parsed
        unfold parseEntries at parsed
        split at parsed
        · cases parsed
        · next same =>
            cases same
            obtain ⟨⟨key, more⟩, _, parsed⟩ := bind_eq_ok parsed
            dsimp only at parsed
            split at parsed
            · obtain ⟨⟨value, behind⟩, scanned, parsed⟩ := bind_eq_ok parsed
              have first := values _ _ _ scanned
              dsimp only at parsed
              split at parsed
              · obtain ⟨others, scanned, parsed⟩ := bind_eq_ok parsed
                cases parsed
                exact List.forall_mem_cons.mpr ⟨first, entries _ _ _ scanned⟩
              · cases parsed
                exact List.forall_mem_singleton.mpr first
              · cases parsed
            · cases parsed
        · cases parsed

/-- Such a property holds of every value that `json.loads` gives. -/
theorem loads_good {good : Value → Prop} (rules : Scanned good) {raw : List UInt8} {value : Value}
    (loaded : loads raw = .ok value) : good value := by
  unfold loads at loaded
  split at loaded
  · unfold loadsText at loaded
    obtain ⟨⟨found, rest⟩, parsed, loaded⟩ := bind_eq_ok loaded
    dsimp only at loaded
    split at loaded
    · cases loaded
      exact (parse_good rules _).1 _ _ _ parsed
    · cases loaded
  · cases loaded

theorem scanned_short : Scanned Short where
  scalar := scanScalar_short
  str := fun _ => trivial
  list := shortItems_iff.mpr
  dict := fun each =>
    shortEntries_iff.mpr (foldl_insertEntry_good (fun entry member => by cases member) each)

/-- Every integer that `json.loads` gives is short. -/
theorem loads_short {raw : List UInt8} {value : Value} (loaded : loads raw = .ok value) : Short value :=
  loads_good scanned_short loaded

end ExitfyCores.Py
