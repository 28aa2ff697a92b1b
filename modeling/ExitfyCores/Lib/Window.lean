/-
Module: ExitfyCores.Lib.Window
Layer: Library
Purpose: Searching a text that arrives in pieces. A searcher looks at the end of what it has read, together with the
  next piece; these are the facts about which occurrences it can see there and which it must have seen before. An
  occurrence is a place of which a predicate holds, and the predicate sees the symbol before the place and the text
  behind it.
Imports: ExitfyCores.Lib.Regex
Trusted boundary: human-reviewed spec
Main exports: last, occursAt, search, Local, last_append_last, infix_append_iff, search_eq_some_iff,
  occurs_window_iff
Open obligations: none
-/
import ExitfyCores.Lib.Regex

namespace ExitfyCores.Window

universe u

variable {α : Type u}

/-- `data[-count:]` for a positive `count` -/
def last (count : Nat) (data : List α) : List α := data.drop (data.length - count)

theorem length_last (count : Nat) (data : List α) : (last count data).length = min count data.length := by
  rw [last, List.length_drop]
  omega

theorem take_append_last (count : Nat) (data : List α) :
    data.take (data.length - count) ++ last count data = data :=
  List.take_append_drop _ _

theorem map_last {β : Type u} (f : α → β) (count : Nat) (data : List α) :
    (last count data).map f = last count (data.map f) := by
  simp [last]

/-- A text with the next piece is what is no longer in sight, and the window. -/
theorem append_eq_window (keep : Nat) (data more : List α) :
    data ++ more = data.take (data.length - keep) ++ (last keep data ++ more) := by
  rw [← List.append_assoc, take_append_last]

/-- Of a text that has been cut to its end, a shorter end is still there. -/
theorem last_append_last {count keep : Nat} (le : count ≤ keep) (data more : List α) :
    last count (last keep data ++ more) = last count (data ++ more) := by
  have offset : (data ++ more).length - count =
      (data.take (data.length - keep)).length + ((last keep data ++ more).length - count) := by
    have window := length_last keep data
    simp only [List.length_append, List.length_take, window]
    omega
  calc last count (last keep data ++ more)
      = (last keep data ++ more).drop ((last keep data ++ more).length - count) := rfl
    _ = (data ++ more).drop ((data ++ more).length - count) := by
        rw [offset, append_eq_window keep data more, List.drop_length_add_append]
    _ = last count (data ++ more) := rfl

/-- A word that is not longer than the end that is kept, with one symbol, lies in the text or in the window. -/
theorem infix_append_iff {word : List α} {keep : Nat} (short : word.length ≤ keep + 1) (data more : List α) :
    word <:+: data ++ more ↔ word <:+: data ∨ word <:+: last keep data ++ more := by
  constructor
  · intro ⟨left, right, split⟩
    by_cases before : left.length + word.length ≤ data.length
    · have inside : left ++ word <+: data :=
        List.prefix_of_prefix_length_le ⟨right, split⟩ ⟨more, rfl⟩ (by simpa using before)
      exact Or.inl ((List.suffix_append left word).isInfix.trans inside.isInfix)
    · have behind : data.take (data.length - keep) <+: left := by
        refine List.prefix_of_prefix_length_le ((List.take_prefix _ data).trans ⟨more, rfl⟩)
          ⟨word ++ right, by rw [← List.append_assoc, split]⟩ ?_
        simp only [List.length_take]
        omega
      obtain ⟨rest, rfl⟩ := behind
      have window : last keep data ++ more = rest ++ word ++ right := by
        rw [append_eq_window keep data more] at split
        simpa using split.symm
      exact Or.inr ⟨rest, right, window.symm⟩
  · intro found
    rcases found with inData | inWindow
    · exact inData.trans (List.prefix_append data more).isInfix
    · exact inWindow.trans (List.IsSuffix.isInfix ⟨_, (append_eq_window keep data more).symm⟩)

/-! ### Places in a text -/

variable (hit : Option α → List α → Bool)

/-- The predicate holds at an offset of the text. -/
def occursAt (data : List α) (start : Nat) : Bool :=
  hit (Regex.advance none (data.take start)) (data.drop start)

/-- The first offset from `position` on at which the predicate holds. -/
def search (data : List α) (position : Nat) : Option Nat :=
  (List.range' position (data.length + 1 - position)).find? (occursAt hit data)

/-- The predicate holds of no place that has nothing behind it. -/
def Consuming : Prop := ∀ before, hit before [] = false

/-- Whether the predicate holds is settled by one symbol more than `width`. -/
def Local (width : Nat) : Prop :=
  ∀ before (text more : List α), width < text.length → hit before (text ++ more) = hit before text

variable {hit}

theorem search_eq_some_iff {data : List α} {position start : Nat} :
    search hit data position = some start ↔
      position ≤ start ∧ start ≤ data.length ∧ occursAt hit data start = true ∧
        ∀ earlier, position ≤ earlier → earlier < start → occursAt hit data earlier = false := by
  rw [search, List.find?_range'_eq_some, List.mem_range'_1]
  constructor
  · intro ⟨here, ⟨low, high⟩, first⟩
    exact ⟨low, by omega, here, fun earlier le lt => by simpa using first earlier le lt⟩
  · intro ⟨low, high, here, first⟩
    exact ⟨here, ⟨low, by omega⟩, fun earlier le lt => by simpa using first earlier le lt⟩

theorem search_eq_none_iff {data : List α} {position : Nat} :
    search hit data position = none ↔
      ∀ start, position ≤ start → start ≤ data.length → occursAt hit data start = false := by
  rw [search, List.find?_range'_eq_none]
  constructor
  · intro none start low high
    simpa using none start low (by omega)
  · intro none start low high
    simpa using none start low (by omega)

theorem Consuming.lt (consuming : Consuming hit) {data : List α} {start : Nat}
    (occurs : occursAt hit data start = true) : start < data.length := by
  by_contra behind
  rw [occursAt, List.drop_eq_nil_of_le (by omega), consuming] at occurs
  cases occurs

/-- With text in front of it, an occurrence stays one, if the symbol before it is in sight. -/
theorem occursAt_append (dropped data : List α) {start : Nat} (sight : dropped = [] ∨ 0 < start)
    (inside : start ≤ data.length) :
    occursAt hit (dropped ++ data) (dropped.length + start) = occursAt hit data start := by
  rw [occursAt, occursAt, List.drop_length_add_append, List.take_length_add_append, Regex.advance_append]
  rcases sight with rfl | positive
  · rfl
  · obtain ⟨front, symbol, split⟩ := List.eq_nil_or_concat (data.take start) |>.resolve_left (by
      intro empty
      have := congrArg List.length empty
      simp only [List.length_take, List.length_nil] at this
      omega)
    rw [split, List.concat_eq_append, Regex.advance_concat, Regex.advance_concat]

/-- With more text behind it, a place that had enough in sight is judged as before. -/
theorem Local.occursAt_append {width : Nat} (settled : Local hit width) (data more : List α) {start : Nat}
    (enough : start + width < data.length) :
    occursAt hit (data ++ more) start = occursAt hit data start := by
  have inside : start ≤ data.length := by omega
  rw [occursAt, occursAt, List.take_append_of_le_length inside, List.drop_append_of_le_length inside, settled]
  simp only [List.length_drop]
  omega

/-- What is found below a limit: it was found before in the part that is no longer in sight, or it is found in the
window. The first place of a window that has lost its front is not looked at, for it has no symbol before it. -/
theorem occurs_window_iff {dropped window : List α} {minimum limit : Nat}
    (start_of_window : minimum = if dropped = [] then 0 else 1) (le : limit ≤ window.length) :
    (∃ start < dropped.length + limit, occursAt hit (dropped ++ window) start = true) ↔
      (∃ start < dropped.length + min minimum limit, occursAt hit (dropped ++ window) start = true) ∨
        ∃ start, minimum ≤ start ∧ start < limit ∧ occursAt hit window start = true := by
  have sight : ∀ {start : Nat}, minimum ≤ start → dropped = [] ∨ 0 < start := by
    intro start low
    by_cases whole : dropped = []
    · exact Or.inl whole
    · rw [if_neg whole] at start_of_window
      exact Or.inr (by omega)
  constructor
  · intro ⟨start, below, occurs⟩
    by_cases early : start < dropped.length + minimum
    · exact Or.inl ⟨start, by omega, occurs⟩
    · obtain ⟨offset, rfl⟩ := Nat.exists_eq_add_of_le (show dropped.length ≤ start by omega)
      have low : minimum ≤ offset := by omega
      rw [Window.occursAt_append dropped window (sight low) (by omega)] at occurs
      exact Or.inr ⟨offset, low, by omega, occurs⟩
  · intro found
    rcases found with ⟨start, below, occurs⟩ | ⟨start, low, high, occurs⟩
    · exact ⟨start, by omega, occurs⟩
    · refine ⟨dropped.length + start, by omega, ?_⟩
      rw [Window.occursAt_append dropped window (sight low) (by omega)]
      exact occurs

end ExitfyCores.Window
