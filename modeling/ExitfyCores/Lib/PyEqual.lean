/-
Module: ExitfyCores.Lib.PyEqual
Layer: Lib
Purpose: `==` of Python on decoded values, where a number equals another whatever its type, and what the canonical text
  of a value tells about a value that it equals.
Imports: ExitfyCores.Lib.PyFloat, ExitfyCores.Lib.PyJsonDigits
Trusted boundary: human-reviewed spec
Main exports: pyEqual, pyEqual_dict, pyEqual_refl, find?_key, Object.get_of_mem, onlyIntegers, Distinct, loads_distinct,
  canonicalDumps, canonicalDumps_eq_iff, loads_canonicalDumps
Open obligations: none
-/
import ExitfyCores.Lib.PyFloat
import ExitfyCores.Lib.PyJsonDigits

namespace ExitfyCores.Py

/-! ### Equality -/

/-- A number as it is compared. -/
inductive Number where
  | nan
  | infinity (negative : Bool)
  | rational (value : Rat)
deriving DecidableEq

def PyFloat.number : PyFloat → Number
  | .nan => .nan
  | .infinity negative => .infinity negative
  | .finite negative magnitude => .rational (if negative then -magnitude else magnitude)

def Number.equal (first second : Number) : Bool := first ≠ .nan && first == second

/-- A `bool`, an `int` or a `float` as a number. -/
def Value.number : Value → Option Number
  | .bool value => some (.rational (if value then 1 else 0))
  | .int value => some (.rational value)
  | .float literal => some (parseFloat literal).number
  | _ => Option.none

/-- Two numbers are equal; nothing else is. -/
def equalNumbers (first second : Value) : Bool :=
  match first.number, second.number with
  | some one, some two => one.equal two
  | _, _ => false

mutual

/-- `value == other` -/
def pyEqual : Value → Value → Bool
  | .none, other =>
      match other with
      | .none => true
      | _ => false
  | .str value, other => other.isText value
  | .list items, other =>
      match other with
      | .list others => pyEqualItems items others
      | _ => false
  | .dict entries, other =>
      match other with
      | .dict others => entries.length == others.length && pyEqualEntries entries others
      | _ => false
  | .bool value, other => equalNumbers (.bool value) other
  | .int value, other => equalNumbers (.int value) other
  | .float literal, other => equalNumbers (.float literal) other

def pyEqualItems : List Value → List Value → Bool
  | [], others => others.isEmpty
  | item :: items, others =>
      match others with
      | other :: others => pyEqual item other && pyEqualItems items others
      | [] => false

/-- Each entry has an equal value under its key. -/
def pyEqualEntries : List (Text × Value) → List (Text × Value) → Bool
  | [], _ => true
  | (key, value) :: entries, others =>
      (match others.find? fun other => other.1 = key with
        | some other => pyEqual value other.2
        | none => false) && pyEqualEntries entries others

end

mutual

/-- No boolean and no float is in the value. -/
def onlyIntegers : Value → Bool
  | .bool _ => false
  | .float _ => false
  | .list items => onlyIntegersItems items
  | .dict entries => onlyIntegersEntries entries
  | _ => true

def onlyIntegersItems : List Value → Bool
  | [] => true
  | item :: items => onlyIntegers item && onlyIntegersItems items

def onlyIntegersEntries : List (Text × Value) → Bool
  | [] => true
  | entry :: entries => onlyIntegers entry.2 && onlyIntegersEntries entries

end

mutual

/-- No key of a dictionary repeats. -/
def Distinct : Value → Prop
  | .list items => DistinctItems items
  | .dict entries => (entries.map Prod.fst).Nodup ∧ DistinctEntries entries
  | _ => True

def DistinctItems : List Value → Prop
  | [] => True
  | item :: items => Distinct item ∧ DistinctItems items

def DistinctEntries : List (Text × Value) → Prop
  | [] => True
  | entry :: entries => Distinct entry.2 ∧ DistinctEntries entries

end

theorem onlyIntegersItems_iff {items : List Value} :
    onlyIntegersItems items = true ↔ ∀ item ∈ items, onlyIntegers item = true := by
  induction items with
  | nil => simp [onlyIntegersItems]
  | cons item items ih => simp [onlyIntegersItems, ih]

theorem onlyIntegersEntries_iff {entries : List (Text × Value)} :
    onlyIntegersEntries entries = true ↔ ∀ entry ∈ entries, onlyIntegers entry.2 = true := by
  induction entries with
  | nil => simp [onlyIntegersEntries]
  | cons entry entries ih => simp only [onlyIntegersEntries, Bool.and_eq_true, ih, List.forall_mem_cons]

theorem distinctItems_iff {items : List Value} : DistinctItems items ↔ ∀ item ∈ items, Distinct item := by
  induction items with
  | nil => simp [DistinctItems]
  | cons item items ih => simp [DistinctItems, ih]

theorem distinctEntries_iff {entries : List (Text × Value)} :
    DistinctEntries entries ↔ ∀ entry ∈ entries, Distinct entry.2 := by
  induction entries with
  | nil => simp [DistinctEntries]
  | cons entry entries ih => simp only [DistinctEntries, ih, List.forall_mem_cons]

/-- What stands under a key of a dictionary without repeated keys is such a value, too. -/
theorem Distinct.get {entries : Object} (distinct : DistinctEntries entries) (key : String) :
    Distinct (entries.get key) := by
  unfold Object.get
  cases found : entries.find? fun entry => entry.1 = text key with
  | none => exact trivial
  | some entry => exact distinctEntries_iff.mp distinct entry (List.mem_of_find?_eq_some found)

theorem pyEqualEntries_iff {entries others : List (Text × Value)} :
    pyEqualEntries entries others = true ↔ ∀ entry ∈ entries, ∃ other ∈ others,
      (others.find? fun candidate => candidate.1 = entry.1) = some other ∧ pyEqual entry.2 other.2 = true := by
  induction entries with
  | nil => simp [pyEqualEntries]
  | cons entry entries ih =>
      obtain ⟨key, value⟩ := entry
      rw [pyEqualEntries, Bool.and_eq_true, ih, List.forall_mem_cons]
      refine and_congr_left' ?_
      cases found : others.find? fun other => other.1 = key with
      | none => simp
      | some other =>
          have member := List.mem_of_find?_eq_some found
          constructor
          · exact fun equal => ⟨other, member, rfl, equal⟩
          · intro ⟨_, _, same, equal⟩
            cases same
            exact equal

/-- The entry of a key that no other entry has. -/
theorem find?_key {α : Type} {entries : List (Text × α)} (nodup : (entries.map Prod.fst).Nodup) {entry : Text × α}
    (member : entry ∈ entries) : (entries.find? fun other => other.1 = entry.1) = some entry := by
  induction entries with
  | nil => cases member
  | cons first rest ih =>
      obtain ⟨fresh, nodupRest⟩ := List.nodup_cons.mp nodup
      rcases List.mem_cons.mp member with rfl | later
      · simp
      · have apart : first.1 ≠ entry.1 := fun same => fresh (same ▸ List.mem_map_of_mem later)
        rw [List.find?_cons_of_neg (by simpa using apart), ih nodupRest later]

theorem equalNumbers_int (value : Int) : equalNumbers (.int value) (.int value) = true := by
  simp [equalNumbers, Value.number, Number.equal]

mutual

/-- A value without booleans and floats equals itself. -/
theorem pyEqual_refl : ∀ {value : Value}, onlyIntegers value = true → Distinct value → pyEqual value value = true
  | .none, _, _ => rfl
  | .str value, _, _ => by simp [pyEqual, Value.isText]
  | .int value, _, _ => equalNumbers_int value
  | .bool _, integers, _ | .float _, integers, _ => by cases integers
  | .list _, integers, distinct => pyEqualItems_refl integers distinct
  | .dict entries, integers, distinct => by
      rw [pyEqual, beq_self_eq_true, Bool.true_and, pyEqualEntries_iff]
      exact fun entry member => ⟨entry, member, find?_key distinct.1 member,
        pyEqualEntries_refl integers distinct.2 entry member⟩

theorem pyEqualItems_refl : ∀ {items : List Value}, onlyIntegersItems items = true → DistinctItems items →
    pyEqualItems items items = true
  | [], _, _ => rfl
  | item :: items, integers, distinct => by
      rw [onlyIntegersItems, Bool.and_eq_true] at integers
      rw [pyEqualItems, pyEqual_refl integers.1 distinct.1, pyEqualItems_refl integers.2 distinct.2]
      rfl

theorem pyEqualEntries_refl : ∀ {entries : List (Text × Value)}, onlyIntegersEntries entries = true →
    DistinctEntries entries → ∀ entry ∈ entries, pyEqual entry.2 entry.2 = true
  | [], _, _, _, member => by cases member
  | first :: rest, integers, distinct, entry, member => by
      rw [onlyIntegersEntries, Bool.and_eq_true] at integers
      rcases List.mem_cons.mp member with same | later
      · rw [same]
        exact pyEqual_refl integers.1 distinct.1
      · exact pyEqualEntries_refl integers.2 distinct.2 entry later

end

theorem pyEqualItems_iff {items others : List Value} :
    pyEqualItems items others = true ↔ List.Forall₂ (fun item other => pyEqual item other = true) items others := by
  induction items generalizing others with
  | nil => cases others <;> simp [pyEqualItems]
  | cons item items ih =>
      cases others with
      | nil => simp [pyEqualItems]
      | cons other others => rw [pyEqualItems, Bool.and_eq_true, ih, List.forall₂_cons]

/-- Only a string equals a string. -/
theorem pyEqual_str {value : Value} {constant : Text} : pyEqual value (.str constant) = true ↔ value = .str constant := by
  cases value with
  | str other => simpa [pyEqual, Value.isText] using eq_comm
  | int other => simp [pyEqual, equalNumbers, Value.number]
  | bool other => simp [pyEqual, equalNumbers, Value.number]
  | float other => simp [pyEqual, equalNumbers, Value.number]
  | none => simp [pyEqual]
  | list items => simp [pyEqual]
  | dict entries => simp [pyEqual]

/-- Only a list equals a list. -/
theorem pyEqual_list {value : Value} {others : List Value} : pyEqual value (.list others) = true ↔
    ∃ items, value = .list items ∧ pyEqualItems items others = true := by
  cases value with
  | list items => simp [pyEqual]
  | int other => simp [pyEqual, equalNumbers, Value.number]
  | bool other => simp [pyEqual, equalNumbers, Value.number]
  | float other => simp [pyEqual, equalNumbers, Value.number]
  | none => simp [pyEqual]
  | str other => simp [pyEqual, Value.isText]
  | dict entries => simp [pyEqual]

/-- Only a dictionary equals a dictionary. -/
theorem exists_of_pyEqual_dict {value : Value} {others : Object} (equal : pyEqual value (.dict others) = true) :
    ∃ entries, value = .dict entries := by
  cases value with
  | dict entries => exact ⟨entries, rfl⟩
  | int other => simp [pyEqual, equalNumbers, Value.number] at equal
  | bool other => simp [pyEqual, equalNumbers, Value.number] at equal
  | float other => simp [pyEqual, equalNumbers, Value.number] at equal
  | none => simp [pyEqual] at equal
  | str other => simp [pyEqual, Value.isText] at equal
  | list items => simp [pyEqual] at equal

/-! ### Dictionaries -/

theorem Object.get_of_mem {entries : Object} (nodup : (entries.map Prod.fst).Nodup) {key : String} {value : Value}
    (member : (text key, value) ∈ entries) : entries.get key = value := by
  rw [Object.get, find?_key nodup member]
  rfl

/-- Dictionaries with the same keys are equal when they have equal values under each of them. -/
theorem pyEqual_dict {entries others : Object} {keys : List String} (nodup : (entries.map Prod.fst).Nodup)
    (nodupOthers : (others.map Prod.fst).Nodup)
    (same : ∀ name, name ∈ entries.map Prod.fst ↔ name ∈ keys.map text)
    (sameOthers : ∀ name, name ∈ others.map Prod.fst ↔ name ∈ keys.map text)
    (each : ∀ key ∈ keys, pyEqual (entries.get key) (others.get key) = true) :
    pyEqual (.dict entries) (.dict others) = true := by
  have perm : (entries.map Prod.fst).Perm (others.map Prod.fst) :=
    (List.perm_ext_iff_of_nodup nodup nodupOthers).mpr fun name => (same name).trans (sameOthers name).symm
  rw [pyEqual, Bool.and_eq_true, beq_iff_eq, pyEqualEntries_iff]
  constructor
  · simpa using perm.length_eq
  · intro entry member
    obtain ⟨key, memberKey, sameKey⟩ := List.mem_map.mp ((same entry.1).mp (List.mem_map_of_mem member))
    have among : text key ∈ others.map Prod.fst := (sameOthers _).mpr (List.mem_map_of_mem memberKey)
    obtain ⟨other, memberOther, sameOther⟩ := List.mem_map.mp among
    have equal := each key memberKey
    rw [@Object.get_of_mem entries nodup key entry.2 (sameKey ▸ member),
      @Object.get_of_mem others nodupOthers key other.2 (sameOther ▸ memberOther)] at equal
    refine ⟨other, memberOther, ?_, equal⟩
    rw [← sameKey, ← sameOther]
    exact find?_key nodupOthers memberOther

theorem equalNumbers_int_iff {value other : Int} : equalNumbers (.int value) (.int other) = true ↔ value = other := by
  simp [equalNumbers, Value.number, Number.equal]

/-! ### Keys of a loaded value -/

theorem map_fst_insertEntry (entries : List (Text × Value)) (entry : Text × Value) :
    (insertEntry entries entry).map Prod.fst =
      if entry.1 ∈ entries.map Prod.fst then entries.map Prod.fst else entries.map Prod.fst ++ [entry.1] := by
  have present : (entries.any fun old => old.1 = entry.1) = true ↔ entry.1 ∈ entries.map Prod.fst := by
    simp [List.any_eq_true, List.mem_map]
  unfold insertEntry
  by_cases among : entry.1 ∈ entries.map Prod.fst
  · rw [if_pos (present.mpr among), if_pos among, List.map_map]
    refine List.map_congr_left fun old _ => ?_
    by_cases same : old.1 = entry.1
    · simp [same]
    · simp [same]
  · rw [if_neg (fun any => among (present.mp any)), if_neg among, List.map_append]
    rfl

theorem nodup_insertEntries {entries done : List (Text × Value)} (nodup : (done.map Prod.fst).Nodup) :
    ((entries.foldl insertEntry done).map Prod.fst).Nodup := by
  induction entries generalizing done with
  | nil => exact nodup
  | cons entry entries ih =>
      refine ih ?_
      rw [map_fst_insertEntry]
      split
      · exact nodup
      · next absent =>
          rw [List.nodup_append]
          exact ⟨nodup, List.nodup_singleton _, fun key member other last same =>
            absent (List.mem_singleton.mp last ▸ same ▸ member)⟩

theorem finishNumber_distinct {negative : Bool} {digits rest after : Text} {value : Value}
    (finished : finishNumber negative digits rest = .ok (value, after)) : Distinct value := by
  unfold finishNumber at finished
  simp only at finished
  split at finished
  · split at finished
    · cases finished
      trivial
    · cases finished
  · cases finished
    trivial

theorem scanScalar_distinct {rest after : Text} {value : Value} (scanned : scanScalar rest = .ok (value, after)) :
    Distinct value := by
  unfold scanScalar at scanned
  split at scanned
  · next outcome found =>
      rw [scanned] at found
      unfold scanNumber at found
      split at found <;>
        · obtain ⟨_, _, finished⟩ := Option.map_eq_some_iff.mp found
          exact finishNumber_distinct finished
  · split at scanned
    · next constant found =>
        cases scanned
        have member := List.mem_of_find?_eq_some found
        simp only [constants, List.mem_cons, List.not_mem_nil, or_false] at member
        rcases member with rfl | rfl | rfl | rfl | rfl | rfl <;> trivial
    · cases scanned

theorem scanned_distinct : Scanned Distinct where
  scalar := scanScalar_distinct
  str := fun _ => trivial
  list := distinctItems_iff.mpr
  dict := fun each => ⟨nodup_insertEntries List.nodup_nil,
    distinctEntries_iff.mpr (foldl_insertEntry_good (fun entry member => by cases member) each)⟩

/-- `json.loads` gives no dictionary with a key twice. -/
theorem loads_distinct {raw : List UInt8} {value : Value} (loaded : loads raw = .ok value) : Distinct value :=
  loads_good scanned_distinct loaded

/-! ### Sorted entries -/

/-- Sorting by key. -/
abbrev sortByKey (entries : List (Text × Value)) : List (Text × Value) :=
  entries.insertionSort fun first second => first.1 ≤ second.1

theorem map_fst_sortByKey (entries : List (Text × Value)) :
    (sortByKey entries).map Prod.fst = (entries.map Prod.fst).insertionSort (· ≤ ·) :=
  List.map_insertionSort _ _ _ _ fun _ _ _ _ => Iff.rfl

/-- Entries under the same keys in the same order, each next to the one it is related to. -/
theorem forall₂_of_keys {related : Value → Value → Prop} {entries others : List (Text × Value)}
    (nodup : (others.map Prod.fst).Nodup) (keys : entries.map Prod.fst = others.map Prod.fst)
    (each : ∀ entry ∈ entries, ∃ other ∈ others, other.1 = entry.1 ∧ related entry.2 other.2) :
    List.Forall₂ (fun entry other => entry.1 = other.1 ∧ related entry.2 other.2) entries others := by
  induction entries generalizing others with
  | nil =>
      cases others with
      | nil => exact .nil
      | cons other others => cases keys
  | cons entry entries ih =>
      cases others with
      | nil => cases keys
      | cons other others =>
          obtain ⟨sameKey, sameKeys⟩ := List.cons.inj keys
          obtain ⟨fresh, nodupTail⟩ := List.nodup_cons.mp nodup
          refine .cons ⟨sameKey, ?_⟩ (ih nodupTail sameKeys ?_)
          · obtain ⟨found, member, same, holds⟩ := each entry List.mem_cons_self
            rcases List.mem_cons.mp member with rfl | later
            · exact holds
            · exact absurd (List.mem_map.mpr ⟨found, later, same.trans sameKey⟩) fresh
          · intro next memberNext
            obtain ⟨found, member, same, holds⟩ := each next (List.mem_cons_of_mem entry memberNext)
            rcases List.mem_cons.mp member with rfl | later
            · have among : next.1 ∈ others.map Prod.fst := sameKeys ▸ List.mem_map_of_mem memberNext
              exact absurd (same ▸ among) fresh
            · exact ⟨found, later, same, holds⟩

/-- Dictionaries of one size in which each key of the one has a related value in the other. -/
theorem forall₂_sortByKey {related : Value → Value → Prop} {entries others : List (Text × Value)}
    (nodup : (entries.map Prod.fst).Nodup) (nodupOthers : (others.map Prod.fst).Nodup)
    (length : entries.length = others.length)
    (each : ∀ entry ∈ entries, ∃ other ∈ others, other.1 = entry.1 ∧ related entry.2 other.2) :
    List.Forall₂ (fun entry other => entry.1 = other.1 ∧ related entry.2 other.2)
      (sortByKey entries) (sortByKey others) := by
  have among : entries.map Prod.fst ⊆ others.map Prod.fst := by
    intro key member
    obtain ⟨entry, memberEntry, rfl⟩ := List.mem_map.mp member
    obtain ⟨other, memberOther, same, _⟩ := each entry memberEntry
    exact same ▸ List.mem_map_of_mem memberOther
  have perm : (entries.map Prod.fst).Perm (others.map Prod.fst) :=
    (List.subperm_of_subset nodup among).perm_of_length_le (by simp [length])
  apply forall₂_of_keys
  · rw [map_fst_sortByKey]
    exact (List.perm_insertionSort _ _).nodup_iff.mpr nodupOthers
  · rw [map_fst_sortByKey, map_fst_sortByKey]
    exact (((List.perm_insertionSort _ _).trans perm).trans (List.perm_insertionSort _ _).symm).eq_of_pairwise'
      (List.pairwise_insertionSort _ _) (List.pairwise_insertionSort _ _)
  · intro entry member
    obtain ⟨other, memberOther, found⟩ := each entry ((List.mem_insertionSort _).mp member)
    exact ⟨other, (List.mem_insertionSort _).mpr memberOther, found⟩

/-- Equal dictionaries have equal values under each key. -/
theorem pyEqual_get {entries others : Object} (nodup : (entries.map Prod.fst).Nodup)
    (nodupOthers : (others.map Prod.fst).Nodup) (equal : pyEqual (.dict entries) (.dict others) = true) {key : String}
    {value : Value} (member : (text key, value) ∈ others) : pyEqual (entries.get key) value = true := by
  rw [pyEqual, Bool.and_eq_true, beq_iff_eq, pyEqualEntries_iff] at equal
  obtain ⟨length, each⟩ := equal
  have among : entries.map Prod.fst ⊆ others.map Prod.fst := by
    intro name memberName
    obtain ⟨entry, memberEntry, rfl⟩ := List.mem_map.mp memberName
    obtain ⟨other, memberOther, found, _⟩ := each entry memberEntry
    have same : other.1 = entry.1 := by simpa using List.find?_some found
    exact same ▸ List.mem_map_of_mem memberOther
  have perm : (entries.map Prod.fst).Perm (others.map Prod.fst) :=
    (List.subperm_of_subset nodup among).perm_of_length_le (by simp [length])
  obtain ⟨⟨name, own⟩, memberEntry, rfl⟩ := List.mem_map.mp (perm.mem_iff.mpr (List.mem_map_of_mem member))
  obtain ⟨other, _, found, holds⟩ := each _ memberEntry
  cases (find?_key nodupOthers member).symm.trans found
  rw [Object.get_of_mem nodup memberEntry]
  exact holds

/-! ### Values that differ in numbers only -/

mutual

/-- The second value is the first one, except that it has an integer wherever the first one has any number. -/
def Alike : Value → Value → Prop
  | .none, other => other = .none
  | .str value, other => other = .str value
  | .int value, other => other = .int value
  | .bool _, other => ∃ number, other = .int number
  | .float _, other => ∃ number, other = .int number
  | .list items, other => ∃ others, other = .list others ∧ AlikeItems items others
  | .dict entries, other => ∃ others, other = .dict others ∧ AlikeEntries entries others

def AlikeItems : List Value → List Value → Prop
  | [], others => others = []
  | item :: items, others => ∃ other rest, others = other :: rest ∧ Alike item other ∧ AlikeItems items rest

def AlikeEntries : List (Text × Value) → List (Text × Value) → Prop
  | [], others => others = []
  | entry :: entries, others =>
      ∃ other rest, others = (entry.1, other) :: rest ∧ Alike entry.2 other ∧ AlikeEntries entries rest

end

theorem alikeEntries_of_forall₂ {entries others : List (Text × Value)}
    (all : List.Forall₂ (fun entry other => entry.1 = other.1 ∧ Alike entry.2 other.2) entries others) :
    AlikeEntries entries others := by
  induction all with
  | nil => rfl
  | @cons entry other entries others first _ ih =>
      obtain ⟨key, otherValue⟩ := other
      obtain ⟨rfl, alike⟩ := first
      exact ⟨otherValue, others, rfl, alike, ih⟩

theorem exact_of_equalNumbers {value other : Value} (equal : equalNumbers value other = true)
    (integers : onlyIntegers other = true) : ∃ number : Int, other = .int number ∧
      ∃ one, value.number = some one ∧ one.equal (.rational number) = true := by
  unfold equalNumbers at equal
  cases other with
  | int number =>
      refine ⟨number, rfl, ?_⟩
      cases found : value.number with
      | none => simp [found] at equal
      | some one =>
          rw [found] at equal
          exact ⟨one, rfl, equal⟩
  | bool _ => cases integers
  | float _ => cases integers
  | none => simp [Value.number] at equal
  | str _ => simp [Value.number] at equal
  | list _ => simp [Value.number] at equal
  | dict _ => simp [Value.number] at equal

theorem map_fst_sortEntries (entries : List (Text × Value)) :
    (sortEntries entries).map Prod.fst = entries.map Prod.fst := by
  induction entries with
  | nil => rfl
  | cons entry entries ih => simp only [sortEntries, List.map_cons, ih]

theorem mem_sortEntries {entries : List (Text × Value)} {sorted : Text × Value} :
    sorted ∈ sortEntries entries ↔ ∃ entry ∈ entries, sorted = (entry.1, sortKeys entry.2) := by
  induction entries with
  | nil => simp [sortEntries]
  | cons entry entries ih => simp only [sortEntries, List.mem_cons, ih, exists_eq_or_imp]

mutual

/-- Equal values with sorted keys differ in numbers only. -/
theorem alike_sortKeys : ∀ {value other : Value}, pyEqual value other = true → Distinct value → Distinct other →
    onlyIntegers other = true → Alike (sortKeys value) (sortKeys other)
  | .none, other, equal, _, _, _ => by
      cases other <;> first | rfl | cases equal
  | .str value, other, equal, _, _, _ => by
      cases other with
      | str second =>
          obtain rfl : second = value := by simpa [pyEqual, Value.isText] using equal
          rfl
      | _ => cases equal
  | .int value, other, equal, _, _, integers => by
      obtain ⟨number, rfl, one, found, same⟩ := exact_of_equalNumbers equal integers
      cases found
      have exactly : (value : Rat) = number := by simpa [Number.equal] using same
      obtain rfl : value = number := Rat.intCast_inj.mp exactly
      rfl
  | .bool _, other, equal, _, _, integers => by
      obtain ⟨number, rfl, _⟩ := exact_of_equalNumbers equal integers
      exact ⟨number, rfl⟩
  | .float _, other, equal, _, _, integers => by
      obtain ⟨number, rfl, _⟩ := exact_of_equalNumbers equal integers
      exact ⟨number, rfl⟩
  | .list items, other, equal, distinct, distinctOther, integers => by
      cases other with
      | list others => exact ⟨_, rfl, alike_sortItems equal distinct distinctOther integers⟩
      | _ => cases equal
  | .dict entries, other, equal, distinct, distinctOther, integers => by
      cases other with
      | dict others =>
          rw [pyEqual, Bool.and_eq_true, beq_iff_eq, pyEqualEntries_iff] at equal
          refine ⟨_, rfl, alikeEntries_of_forall₂ (forall₂_sortByKey ?_ ?_ ?_ ?_)⟩
          · rw [map_fst_sortEntries]
            exact distinct.1
          · rw [map_fst_sortEntries]
            exact distinctOther.1
          · rw [← List.length_map Prod.fst, ← List.length_map Prod.fst, map_fst_sortEntries, map_fst_sortEntries,
              List.length_map, List.length_map, equal.1]
          · intro sorted member
            obtain ⟨entry, memberEntry, rfl⟩ := mem_sortEntries.mp member
            obtain ⟨found, memberFound, look, same⟩ := equal.2 entry memberEntry
            refine ⟨_, mem_sortEntries.mpr ⟨found, memberFound, rfl⟩, by simpa using List.find?_some look, ?_⟩
            exact alike_sortEntries distinct.2 entry memberEntry same
              (distinctEntries_iff.mp distinctOther.2 found memberFound)
              (onlyIntegersEntries_iff.mp integers found memberFound)
      | _ => cases equal

theorem alike_sortItems : ∀ {items others : List Value}, pyEqualItems items others = true → DistinctItems items →
    DistinctItems others → onlyIntegersItems others = true → AlikeItems (sortItems items) (sortItems others)
  | [], others, equal, _, _, _ => by
      cases others with
      | nil => rfl
      | cons other others => cases equal
  | item :: items, others, equal, distinct, distinctOthers, integers => by
      cases others with
      | nil => cases equal
      | cons other others =>
          rw [pyEqualItems, Bool.and_eq_true] at equal
          rw [onlyIntegersItems, Bool.and_eq_true] at integers
          exact ⟨_, _, rfl, alike_sortKeys equal.1 distinct.1 distinctOthers.1 integers.1,
            alike_sortItems equal.2 distinct.2 distinctOthers.2 integers.2⟩

theorem alike_sortEntries : ∀ {entries : List (Text × Value)}, DistinctEntries entries → ∀ entry ∈ entries,
    ∀ {other : Value}, pyEqual entry.2 other = true → Distinct other → onlyIntegers other = true →
      Alike (sortKeys entry.2) (sortKeys other)
  | [], _, _, member, _, _, _, _ => by cases member
  | (key, value) :: entries, distinct, entry, member, other, equal, distinctOther, integers => by
      rcases List.mem_cons.mp member with same | later
      · subst same
        exact alike_sortKeys equal distinct.1 distinctOther integers
      · exact alike_sortEntries distinct.2 entry later equal distinctOther integers

end

/-! ### Canonical texts -/

mutual

/-- Every float by the literal that `json.dumps` writes of it. -/
def reprFloats : Value → Value
  | .float literal => .float (floatText (parseFloat literal))
  | .list items => .list (reprItems items)
  | .dict entries => .dict (reprEntries entries)
  | value => value

def reprItems : List Value → List Value
  | [] => []
  | item :: items => reprFloats item :: reprItems items

def reprEntries : List (Text × Value) → List (Text × Value)
  | [] => []
  | entry :: entries => (entry.1, reprFloats entry.2) :: reprEntries entries

end

/-- `json.dumps(value, sort_keys=True, separators=(",", ":"), ensure_ascii=True)` -/
def canonicalDumps (value : Value) : Text := dumps compact 0 (reprFloats (sortKeys value))

mutual

theorem asciiFloats_reprFloats : ∀ value : Value, AsciiFloats (reprFloats value)
  | .none | .bool _ | .int _ | .str _ => trivial
  | .float literal => (floatText_wordy (parseFloat literal)).ascii
  | .list items => asciiFloats_reprItems items
  | .dict entries => asciiFloats_reprEntries entries

theorem asciiFloats_reprItems : ∀ items : List Value, AsciiFloatsItems (reprItems items)
  | [] => trivial
  | item :: items => ⟨asciiFloats_reprFloats item, asciiFloats_reprItems items⟩

theorem asciiFloats_reprEntries : ∀ entries : List (Text × Value), AsciiFloatsEntries (reprEntries entries)
  | [] => trivial
  | entry :: entries => ⟨asciiFloats_reprFloats entry.2, asciiFloats_reprEntries entries⟩

end

theorem ascii_canonicalDumps (value : Value) : Ascii (canonicalDumps value) :=
  ascii_dumps_floats compact 0 (asciiFloats_reprFloats _)

/-- What stands behind a value in a compact text: nothing, a comma, a bracket or a brace. -/
def Ends (rest : Text) : Prop := ∀ c ∈ rest.head?, c = 44 ∨ c = 93 ∨ c = 125

theorem ends_cons {c : Nat} (rest : Text) (closing : c = 44 ∨ c = 93 ∨ c = 125) : Ends (c :: rest) := by
  intro d first
  cases first
  exact closing

theorem ends_dumpsItems (depth : Nat) (items : List Value) {rest : Text} (ends : Ends rest) :
    Ends (dumpsItems compact depth items ++ rest) := by
  cases items with
  | nil => exact ends
  | cons item items => exact ends_cons _ (.inl rfl)

theorem ends_dumpsEntries (depth : Nat) (entries : List (Text × Value)) {rest : Text} (ends : Ends rest) :
    Ends (dumpsEntries compact depth entries ++ rest) := by
  cases entries with
  | nil => exact ends
  | cons entry entries => exact ends_cons _ (.inl rfl)

theorem intText_signed (value : Int) : (intText value).all isSigned = true := by
  cases value with
  | ofNat value => exact all_isSigned (all_isDigit_decimal value)
  | negSucc value =>
      rw [intText, List.all_cons, all_isSigned (all_isDigit_decimal _)]
      rfl

/-- No float is written like an integer. -/
theorem floatText_ne_intText (number : PyFloat) (value : Int) {rest behind : Text} (ends : Ends behind) :
    floatText number ++ rest ≠ intText value ++ behind := by
  intro same
  obtain ⟨⟨head, c, tail, found, signed, wordy⟩, _⟩ := floatText_wordy number
  have notSigned : isSigned c = false := by rcases wordy with rfl | rfl | rfl | rfl <;> rfl
  have cut := congrArg (List.dropWhile isSigned) same
  rw [found, List.append_assoc, List.dropWhile_append_of_pos (List.all_eq_true.mp signed),
    List.dropWhile_append_of_pos (List.all_eq_true.mp (intText_signed value)), List.cons_append,
    List.dropWhile_cons_of_neg (by simp [notSigned])] at cut
  have stops : behind.dropWhile isSigned = behind := by
    cases behind with
    | nil => rfl
    | cons d behind =>
        refine List.dropWhile_cons_of_neg ?_
        rcases ends d rfl with rfl | rfl | rfl <;> decide
  rw [stops] at cut
  have closing := ends c (by rw [← cut]; rfl)
  rcases wordy with rfl | rfl | rfl | rfl <;> simp at closing

theorem boolText_ne_intText (depth : Nat) (flag : Bool) (value : Int) {rest behind : Text} :
    dumps compact depth (.bool flag) ++ rest ≠ intText value ++ behind := by
  intro same
  obtain ⟨c, tail, found, low, high⟩ := intText_head value
  have letter : ∃ d more, dumps compact depth (.bool flag) = d :: more ∧ 97 ≤ d := by
    cases flag with
    | false => exact ⟨102, _, by rw [dumps]; rfl, by decide⟩
    | true => exact ⟨116, _, by rw [dumps]; rfl, by decide⟩
  obtain ⟨d, more, written, large⟩ := letter
  rw [found, written] at same
  have first : d = c := (List.cons.inj same).1
  omega

@[simp] theorem compact_newline (depth : Nat) : compact.newline depth = [] := rfl

@[simp] theorem compact_space : compact.space = [] := rfl

mutual

/-- Where such values are written alike, the numbers of the first one are integers too. -/
theorem Alike.cancel (depth : Nat) : ∀ {value other : Value} {rest behind : Text}, Alike value other → Ends rest →
    Ends behind → dumps compact depth (reprFloats value) ++ rest = dumps compact depth other ++ behind →
    onlyIntegers value = true ∧ rest = behind
  | .none, _, _, _, alike, _, _, same => by
      cases alike
      exact ⟨rfl, List.append_cancel_left same⟩
  | .str _, _, _, _, alike, _, _, same => by
      cases alike
      exact ⟨rfl, List.append_cancel_left same⟩
  | .int _, _, _, _, alike, _, _, same => by
      cases alike
      exact ⟨rfl, List.append_cancel_left same⟩
  | .bool flag, _, _, _, ⟨number, alike⟩, _, _, same => by
      subst alike
      have written : dumps compact depth (.int number) = intText number := by rw [dumps]
      rw [written] at same
      exact absurd same (boolText_ne_intText depth flag number)
  | .float literal, _, _, _, ⟨number, alike⟩, _, ends, same => by
      subst alike
      have written : dumps compact depth (.int number) = intText number := by rw [dumps]
      rw [written] at same
      exact absurd same (floatText_ne_intText _ number ends)
  | .list [], _, _, _, ⟨others, alike, items⟩, _, _, same => by
      subst alike items
      exact ⟨rfl, List.append_cancel_left same⟩
  | .list (item :: items), _, _, _, ⟨others, alike, itemsAlike⟩, endsRest, ends, same => by
      obtain ⟨other, tail, rfl, first, later⟩ := itemsAlike
      subst alike
      simp only [reprFloats, reprItems, dumps, compact_newline, List.nil_append, List.cons_append, List.append_assoc,
        List.cons.injEq, true_and] at same
      have closed : ∀ text, Ends (93 :: text) := fun text => ends_cons text (.inr (.inl rfl))
      obtain ⟨integer, same⟩ := first.cancel (depth + 1) (ends_dumpsItems _ _ (closed _))
        (ends_dumpsItems _ _ (closed _)) same
      obtain ⟨integers, same⟩ := alikeItems_cancel (depth + 1) later (closed _) (closed _) same
      exact ⟨by rw [onlyIntegers, onlyIntegersItems, integer, integers]; rfl, (List.cons.inj same).2⟩
  | .dict [], _, _, _, ⟨others, alike, entries⟩, _, _, same => by
      subst alike entries
      exact ⟨rfl, List.append_cancel_left same⟩
  | .dict ((key, value) :: entries), _, _, _, ⟨others, alike, entriesAlike⟩, endsRest, ends, same => by
      obtain ⟨other, tail, rfl, first, later⟩ := entriesAlike
      subst alike
      simp only [reprFloats, reprEntries, dumps, compact_newline, compact_space, List.nil_append, List.cons_append,
        List.append_assoc, List.cons.injEq, true_and, List.append_cancel_left_eq] at same
      have closed : ∀ text, Ends (125 :: text) := fun text => ends_cons text (.inr (.inr rfl))
      obtain ⟨integer, same⟩ := first.cancel (depth + 1) (ends_dumpsEntries _ _ (closed _))
        (ends_dumpsEntries _ _ (closed _)) same
      obtain ⟨integers, same⟩ := alikeEntries_cancel (depth + 1) later (closed _) (closed _) same
      exact ⟨by rw [onlyIntegers, onlyIntegersEntries, integer, integers]; rfl, (List.cons.inj same).2⟩

theorem alikeItems_cancel (depth : Nat) : ∀ {items others : List Value} {rest behind : Text}, AlikeItems items others →
    Ends rest → Ends behind →
    dumpsItems compact depth (reprItems items) ++ rest = dumpsItems compact depth others ++ behind →
    onlyIntegersItems items = true ∧ rest = behind
  | [], _, _, _, alike, _, _, same => by
      cases alike
      exact ⟨rfl, List.append_cancel_left same⟩
  | item :: items, _, _, _, ⟨other, tail, alike, first, later⟩, endsRest, ends, same => by
      subst alike
      simp only [reprItems, dumpsItems, compact_newline, List.nil_append, List.cons_append, List.append_assoc,
        List.cons.injEq, true_and] at same
      obtain ⟨integer, same⟩ := first.cancel depth (ends_dumpsItems _ _ endsRest) (ends_dumpsItems _ _ ends) same
      obtain ⟨integers, same⟩ := alikeItems_cancel depth later endsRest ends same
      exact ⟨by rw [onlyIntegersItems, integer, integers]; rfl, same⟩

theorem alikeEntries_cancel (depth : Nat) : ∀ {entries others : List (Text × Value)} {rest behind : Text},
    AlikeEntries entries others → Ends rest → Ends behind →
    dumpsEntries compact depth (reprEntries entries) ++ rest = dumpsEntries compact depth others ++ behind →
    onlyIntegersEntries entries = true ∧ rest = behind
  | [], _, _, _, alike, _, _, same => by
      cases alike
      exact ⟨rfl, List.append_cancel_left same⟩
  | (key, value) :: entries, _, _, _, ⟨other, tail, alike, first, later⟩, endsRest, ends, same => by
      subst alike
      simp only [reprEntries, dumpsEntries, compact_newline, compact_space, List.nil_append, List.cons_append,
        List.append_assoc, List.cons.injEq, true_and, List.append_cancel_left_eq] at same
      obtain ⟨integer, same⟩ := first.cancel depth (ends_dumpsEntries _ _ endsRest) (ends_dumpsEntries _ _ ends) same
      obtain ⟨integers, same⟩ := alikeEntries_cancel depth later endsRest ends same
      exact ⟨by rw [onlyIntegersEntries, integer, integers]; rfl, same⟩

end

mutual

theorem Alike.eq : ∀ {value other : Value}, Alike value other → onlyIntegers value = true → other = value
  | .none, _, alike, _ | .str _, _, alike, _ | .int _, _, alike, _ => alike
  | .bool _, _, _, integers | .float _, _, _, integers => by cases integers
  | .list _, _, ⟨_, alike, items⟩, integers => by
      rw [alike, alikeItems_eq items integers]
  | .dict _, _, ⟨_, alike, entries⟩, integers => by
      rw [alike, alikeEntries_eq entries integers]

theorem alikeItems_eq : ∀ {items others : List Value}, AlikeItems items others → onlyIntegersItems items = true →
    others = items
  | [], _, alike, _ => alike
  | _ :: _, _, ⟨_, _, alike, first, later⟩, integers => by
      rw [onlyIntegersItems, Bool.and_eq_true] at integers
      rw [alike, first.eq integers.1, alikeItems_eq later integers.2]

theorem alikeEntries_eq : ∀ {entries others : List (Text × Value)}, AlikeEntries entries others →
    onlyIntegersEntries entries = true → others = entries
  | [], _, alike, _ => alike
  | _ :: _, _, ⟨_, _, alike, first, later⟩, integers => by
      rw [onlyIntegersEntries, Bool.and_eq_true] at integers
      rw [alike, first.eq integers.1, alikeEntries_eq later integers.2]

end

mutual

theorem reprFloats_eq : ∀ {value : Value}, onlyIntegers value = true → reprFloats value = value
  | .none, _ | .str _, _ | .int _, _ => rfl
  | .bool _, integers | .float _, integers => by cases integers
  | .list _, integers => congrArg Value.list (reprItems_eq integers)
  | .dict _, integers => congrArg Value.dict (reprEntries_eq integers)

theorem reprItems_eq : ∀ {items : List Value}, onlyIntegersItems items = true → reprItems items = items
  | [], _ => rfl
  | _ :: _, integers => by
      rw [onlyIntegersItems, Bool.and_eq_true] at integers
      rw [reprItems, reprFloats_eq integers.1, reprItems_eq integers.2]

theorem reprEntries_eq : ∀ {entries : List (Text × Value)}, onlyIntegersEntries entries = true →
    reprEntries entries = entries
  | [], _ => rfl
  | _ :: _, integers => by
      rw [onlyIntegersEntries, Bool.and_eq_true] at integers
      rw [reprEntries, reprFloats_eq integers.1, reprEntries_eq integers.2]

end

mutual

theorem onlyIntegers_sortKeys : ∀ value : Value, onlyIntegers (sortKeys value) = onlyIntegers value
  | .none | .str _ | .int _ | .bool _ | .float _ => rfl
  | .list items => onlyIntegers_sortItems items
  | .dict entries => by
      rw [sortKeys, onlyIntegers, onlyIntegers, ← onlyIntegers_sortEntries entries, Bool.eq_iff_iff,
        onlyIntegersEntries_iff, onlyIntegersEntries_iff]
      simp only [List.mem_insertionSort]

theorem onlyIntegers_sortItems : ∀ items : List Value, onlyIntegersItems (sortItems items) = onlyIntegersItems items
  | [] => rfl
  | item :: items => by
      rw [sortItems, onlyIntegersItems, onlyIntegersItems, onlyIntegers_sortKeys item, onlyIntegers_sortItems items]

theorem onlyIntegers_sortEntries : ∀ entries : List (Text × Value),
    onlyIntegersEntries (sortEntries entries) = onlyIntegersEntries entries
  | [] => rfl
  | (key, value) :: entries => by
      rw [sortEntries, onlyIntegersEntries, onlyIntegersEntries, onlyIntegers_sortKeys value,
        onlyIntegers_sortEntries entries]

end

/-- A value that equals one without booleans and floats has its canonical text just when it has none either. -/
theorem canonicalDumps_eq_iff {value other : Value} (equal : pyEqual value other = true) (distinct : Distinct value)
    (distinctOther : Distinct other) (integers : onlyIntegers other = true) :
    canonicalDumps value = canonicalDumps other ↔ onlyIntegers value = true := by
  have alike := alike_sortKeys equal distinct distinctOther integers
  have sortedOther : reprFloats (sortKeys other) = sortKeys other :=
    reprFloats_eq ((onlyIntegers_sortKeys other).trans integers)
  unfold canonicalDumps
  rw [sortedOther, ← onlyIntegers_sortKeys value]
  constructor
  · intro same
    have nothing : Ends [] := fun c first => by cases first
    exact (alike.cancel 0 nothing nothing (by rw [List.append_nil, List.append_nil, same])).1
  · intro exactly
    rw [reprFloats_eq exactly, alike.eq exactly]

/-! ### Reading a canonical text -/

mutual

theorem reprFloats_plain : ∀ {value : Value}, Plain value → reprFloats value = value
  | .none, _ | .str _, _ | .int _, _ | .bool _, _ => rfl
  | .list items, plain => congrArg Value.list (@reprItems_plain items plain)
  | .dict entries, plain => congrArg Value.dict (@reprEntries_plain entries plain.1)

theorem reprItems_plain : ∀ {items : List Value}, PlainItems items → reprItems items = items
  | [], _ => rfl
  | item :: items, plain => by rw [reprItems, reprFloats_plain plain.1, reprItems_plain plain.2]

theorem reprEntries_plain : ∀ {entries : List (Text × Value)}, PlainEntries entries → reprEntries entries = entries
  | [], _ => rfl
  | (key, value) :: entries, plain => by rw [reprEntries, reprFloats_plain plain.2.1, reprEntries_plain plain.2.2]

end

/-- The canonical text of a plain value is read back with its keys sorted. -/
theorem loads_canonicalDumps {value : Value} (plain : Plain (sortKeys value)) {blank : Text}
    (isBlank : blank.all isJsonSpace = true) : loads (encode (canonicalDumps value ++ blank)) = .ok (sortKeys value) := by
  rw [loads_encode (ascii_append (ascii_canonicalDumps value) (ascii_blank isBlank)), canonicalDumps,
    reprFloats_plain plain, loadsText_dumps compact plain isBlank]

end ExitfyCores.Py
