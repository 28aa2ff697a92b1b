/-
Module: ExitfyCores.Proofs.PaxPayload
Layer: Proofs
Purpose: The payloads that the raw scan accepts for one path. The length field counts its own digits, so next to a power
  of ten there are two of them, and only one is what tarfile writes.
Imports: ExitfyCores.Bundle.Pax, ExitfyCores.Lib.Numerals, ExitfyCores.Lib.PyCodec, ExitfyCores.Lib.Records,
  ExitfyCores.Proofs.BuilderLimits
Trusted boundary: none
Main exports: Carries, PaxPath, validateRawPaxPayload_iff, paxRecordLength_least, paxPayload_unique_iff
Open obligations: none
-/
import ExitfyCores.Bundle.Pax
import ExitfyCores.Lib.Numerals
import ExitfyCores.Lib.PyCodec
import ExitfyCores.Lib.Records
import ExitfyCores.Proofs.BuilderLimits

namespace ExitfyCores.Bundle

open Numerals

/-- The path that a payload carries: what stands between the key behind the first blank and the line end. -/
def Carries (payload path : Bytes) : Prop :=
  ∃ lengthField, byte ' ' ∉ lengthField ∧ payload = lengthField ++ byte ' ' :: (lit "path=" ++ (path ++ [0x0A]))

/-- What the scan asks of a path. -/
structure PaxPath (containsLocalHostPath : Bytes → Bool) (path : Bytes) : Prop where
  some : path ≠ []
  short : path.length ≤ maxMemberNameBytes + 1
  noNul : 0 ∉ path
  noReturn : 0x0D ∉ path
  oneLine : 0x0A ∉ path
  decodes : DecodesStrictly path
  policy : memberNamePolicyFailure containsLocalHostPath path (path.getLast? == Option.some (byte '/')) = none

/-! ### The length field -/

/-- `str(n).encode("ascii")` -/
def lengthDigits (n : Nat) : Bytes := (Py.decimal n).map UInt8.ofNat

theorem toNat_lengthDigits {c n : Nat} (member : c ∈ Py.decimal n) : (UInt8.ofNat c).toNat = c ∧ 48 ≤ c ∧ c ≤ 57 := by
  have digit := List.all_eq_true.mp (Py.all_isDigit_decimal n) c member
  simp only [Py.isDigit, Bool.and_eq_true, decide_eq_true_eq] at digit
  exact ⟨Py.toNat_ofNat_ascii (by omega), digit⟩

theorem lengthDigits_all (n : Nat) : (lengthDigits n).all isDecimal = true := by
  rw [List.all_eq_true]
  intro b member
  rcases List.mem_map.mp member with ⟨c, inside, rfl⟩
  rcases toNat_lengthDigits inside with ⟨code, range⟩
  rw [isDecimal, ← isDigit, isDigit_iff, code]
  exact range

theorem lengthDigits_ne_nil (n : Nat) : lengthDigits n ≠ [] := by simp [lengthDigits]

@[simp] theorem length_lengthDigits (n : Nat) : (lengthDigits n).length = decimalDigits n := by
  simp [lengthDigits, decimalDigits, Py.decimal]

theorem lengthDigits_head {n : Nat} (positive : 0 < n) : (lengthDigits n).head? ≠ some 0x30 := by
  have numeral := Py.isNumeral_decimal positive
  unfold lengthDigits
  cases digits : Py.decimal n with
  | nil => simp
  | cons c rest =>
      rw [digits] at numeral
      simp only [Py.isNumeral, Bool.and_eq_true, decide_eq_true_eq] at numeral
      have code := (toNat_lengthDigits (n := n) (digits ▸ List.mem_cons_self)).1
      intro zero
      have front := congrArg UInt8.toNat (Option.some.inj zero)
      rw [code] at front
      have below := numeral.1.1
      simp at front
      omega

theorem decimal_lengthDigits (n : Nat) : decimal (lengthDigits n) = n := by
  have loop : ∀ (digits : List Nat) start, (∀ c ∈ digits, (UInt8.ofNat c).toNat = c) →
      (digits.map UInt8.ofNat).foldl (fun sum b => 10 * sum + (b.toNat - 0x30)) start =
        digits.foldl (fun sum c => 10 * sum + (c - 48)) start := by
    intro digits
    induction digits with
    | nil => simp
    | cons c rest ih =>
        intro start codes
        rw [List.map_cons, List.foldl_cons, List.foldl_cons, codes c List.mem_cons_self]
        exact ih _ fun d member => codes d (List.mem_cons_of_mem c member)
  calc decimal (lengthDigits n) = Py.numeralValue (Py.decimal n) :=
        loop (Py.decimal n) 0 fun c member => (toNat_lengthDigits member).1
    _ = n := Py.numeralValue_decimal n

/-- A field without a zero in front is what `str` writes for its value. -/
theorem eq_lengthDigits {field : Bytes} (filled : field ≠ []) (all : field.all isDecimal = true)
    (nonzero : field.head? ≠ some 0x30) (positive : 0 < decimal field) : field = lengthDigits (decimal field) := by
  have written := lengthDigits_all (decimal field)
  have same : value 10 (field.map digitOf) = value 10 ((lengthDigits (decimal field)).map digitOf) := by
    rw [← foldl_bytes_eq_value, ← foldl_bytes_eq_value]
    exact (decimal_lengthDigits _).symm
  apply map_digitOf_injective all written
  exact value_injective (by decide) (isDigits_map all) (isDigits_map written) (by simpa using filled)
    (by simpa using lengthDigits_ne_nil _) (leads_map all fun zero => absurd zero nonzero)
    (leads_map written fun zero => absurd zero (lengthDigits_head positive)) same

theorem space_not_mem_lengthDigits (n : Nat) : byte ' ' ∉ lengthDigits n := by
  intro member
  have range := isDigit_iff.mp (List.all_eq_true.mp (lengthDigits_all n) _ member)
  exact absurd range (by decide)

theorem all_ne_of_not_mem {b : UInt8} {run : Bytes} (absent : b ∉ run) : run.all (· ≠ b) = true := by
  rw [List.all_eq_true]
  intro c member
  rw [decide_eq_true_eq]
  intro same
  exact absent (same ▸ member)

/-! ### What the scan accepts -/

theorem raisePolicyFailure_eq_ok {failure : Option String} : raisePolicyFailure failure = .ok () ↔ failure = none := by
  cases failure <;> simp [raisePolicyFailure]

@[simp] theorem length_paxRecordOf (n : Nat) (path : Bytes) :
    (paxRecordOf n path).length = path.length + 7 + decimalDigits n := by
  have fields : (paxRecordOf n path).length = (lengthDigits n).length + ((lit "path=").length + (path.length + 1) + 1) := by
    simp [paxRecordOf, lengthDigits]
  have key : (lit "path=").length = 5 := by decide
  rw [fields, length_lengthDigits, key]
  omega

theorem carries_paxRecordOf (n : Nat) (path : Bytes) : Carries (paxRecordOf n path) path :=
  ⟨lengthDigits n, space_not_mem_lengthDigits n, rfl⟩

theorem paxRecordOf_eq (n : Nat) (path : Bytes) :
    paxRecordOf n path = lengthDigits n ++ byte ' ' :: (lit "path=" ++ (path ++ [0x0A])) := rfl

/-- The line end stands behind the path, and nowhere in front of it. -/
theorem count_paxRecordOf (n : Nat) (path : Bytes) : (paxRecordOf n path).count 0x0A = path.count 0x0A + 1 := by
  have field : (lengthDigits n).count 0x0A = 0 := by
    rw [List.count_eq_zero]
    intro member
    have range := isDigit_iff.mp (List.all_eq_true.mp (lengthDigits_all n) _ member)
    exact absurd range (by decide)
  have key : (lit "path=").count 0x0A = 0 := by decide
  have blank : byte ' ' ≠ 0x0A := by decide
  simp [paxRecordOf_eq, List.count_append, List.count_cons_of_ne blank, field, key]

/-- A payload whose length field is written as `str` writes it. -/
theorem validateRawPaxPayload_paxRecordOf {containsLocalHostPath : Bytes → Bool} {n : Nat} {path : Bytes}
    (positive : 0 < n) :
    validateRawPaxPayload containsLocalHostPath (paxRecordOf n path) = .ok () ↔
      decimalDigits n ≤ 5 ∧ CountsItself 10 (path.length + 7) n ∧ PaxPath containsLocalHostPath path := by
  have field : (paxRecordOf n path).takeWhile (· ≠ 0x20) = lengthDigits n :=
    (Records.takeWhile_stop (all_ne_of_not_mem (space_not_mem_lengthDigits n)) (by decide) _).1
  have blank : 0x20 ∈ paxRecordOf n path := by simp [paxRecordOf, show byte ' ' = 0x20 from rfl]
  have behind : ((paxRecordOf n path).drop (decimalDigits n + 1)).dropLast = lit "path=" ++ path := by
    rw [paxRecordOf_eq, List.drop_append]
    simp [← List.append_assoc]
  have last : (paxRecordOf n path).getLast? = some 0x0A := by
    have split : paxRecordOf n path = lengthDigits n ++ byte ' ' :: (lit "path=" ++ path) ++ [0x0A] := by
      simp [paxRecordOf_eq]
    rw [split, List.getLast?_concat]
  have key : (lit "path=").isPrefixOf (lit "path=" ++ path) = true :=
    List.isPrefixOf_iff_prefix.mpr (List.prefix_append _ _)
  have rest : (lit "path=" ++ path).drop (lit "path=").length = path := List.drop_left
  simp only [validateRawPaxPayload, field, behind, rest, check_bind_eq_ok, raiseIf_eq_ok, raisePolicyFailure_eq_ok,
    blank, lengthDigits_ne_nil, lengthDigits_all, lengthDigits_head positive, decimal_lengthDigits, length_paxRecordOf,
    count_paxRecordOf, last, key, length_lengthDigits]
  simp only [not_true_eq_false, false_or, or_false, not_false_eq_true, true_and, not_or, not_lt, ne_eq, not_not,
    Nat.add_eq_right, List.count_eq_zero]
  constructor
  · rintro ⟨⟨short, counts, oneLine⟩, ⟨some, limit, noNul, noReturn⟩, decodes, policy⟩
    exact ⟨short, counts, some, limit, noNul, noReturn, oneLine, decodes, policy⟩
  · rintro ⟨short, counts, allowed⟩
    exact ⟨⟨short, counts, allowed.oneLine⟩, ⟨allowed.some, allowed.short, allowed.noNul, allowed.noReturn⟩,
      allowed.decodes, allowed.policy⟩

/-- Every payload that the scan accepts is the record of a path, with the length of the payload in front. -/
theorem validateRawPaxPayload_shape {containsLocalHostPath : Bytes → Bool} {payload : Bytes}
    (accepted : validateRawPaxPayload containsLocalHostPath payload = .ok ()) :
    0 < payload.length ∧ ∃ path, payload = paxRecordOf payload.length path := by
  unfold validateRawPaxPayload at accepted
  simp only [check_bind_eq_ok, raiseIf_eq_ok] at accepted
  rcases accepted with ⟨separated, metadata, keyed, -, -, -⟩
  rcases List.eq_append_cons_of_mem (not_not.mp (not_or.mp separated).1) with ⟨field, rest, split, noBlank⟩
  have taken : payload.takeWhile (· ≠ 0x20) = field :=
    split ▸ (Records.takeWhile_stop (all_ne_of_not_mem noBlank) (by decide) rest).1
  have behind : payload.drop (field.length + 1) = rest := by
    rw [split, List.drop_append]
    simp
  simp only [taken, behind, not_or, ne_eq, not_not, not_lt] at separated metadata keyed
  rcases metadata with ⟨all, -, nonzero, counts, -, ended⟩
  have positive : 0 < payload.length := by
    rw [split]
    simp
  have written : field = lengthDigits payload.length := by
    have spelled := eq_lengthDigits separated.2 all nonzero (counts ▸ positive)
    rwa [counts] at spelled
  refine ⟨positive, ?_⟩
  rcases List.eq_nil_or_concat' rest with rfl | ⟨record, b, rfl⟩
  · rw [split, List.getLast?_concat] at ended
    exact absurd (Option.some.inj ended) (by decide)
  · rw [split, ← List.cons_append, ← List.append_assoc, List.getLast?_concat] at ended
    cases ended
    rw [List.dropLast_concat, List.isPrefixOf_iff_prefix] at keyed
    rcases keyed with ⟨path, rfl⟩
    refine ⟨path, ?_⟩
    rw [paxRecordOf_eq, ← written, ← List.append_assoc]
    exact split

/-- The payloads that the scan accepts. -/
theorem validateRawPaxPayload_iff {containsLocalHostPath : Bytes → Bool} {payload : Bytes} :
    validateRawPaxPayload containsLocalHostPath payload = .ok () ↔
      ∃ n path, payload = paxRecordOf n path ∧ 0 < n ∧ decimalDigits n ≤ 5 ∧ CountsItself 10 (path.length + 7) n ∧
        PaxPath containsLocalHostPath path := by
  constructor
  · intro accepted
    rcases validateRawPaxPayload_shape accepted with ⟨positive, path, split⟩
    have parts := accepted
    rw [split, validateRawPaxPayload_paxRecordOf positive] at parts
    exact ⟨payload.length, path, split, positive, parts⟩
  · rintro ⟨n, path, rfl, positive, parts⟩
    exact (validateRawPaxPayload_paxRecordOf positive).mpr parts

/-- A record carries one path. -/
theorem path_of_carries {n : Nat} {path other : Bytes} (carries : Carries (paxRecordOf n path) other) : path = other := by
  rcases carries with ⟨field, noBlank, same⟩
  have stop : decide (byte ' ' ≠ byte ' ') = false := by decide
  have first := (Records.takeWhile_stop (all_ne_of_not_mem (space_not_mem_lengthDigits n)) stop
    (lit "path=" ++ (path ++ [0x0A]))).2
  have second := (Records.takeWhile_stop (all_ne_of_not_mem noBlank) stop (lit "path=" ++ (other ++ [0x0A]))).2
  rw [← paxRecordOf_eq, same, second] at first
  have tails := List.append_cancel_left (List.cons.inj first).2
  exact (List.append_cancel_right tails).symm

/-! ### What tarfile writes -/

theorem decimalDigits_mono {m n : Nat} (le : m ≤ n) : decimalDigits m ≤ decimalDigits n := by
  have positive : 0 < decimalDigits n := Nat.length_toDigits_pos
  have below := (Nat.length_toDigits_le_iff (by decide) positive).mp (Nat.le_refl (decimalDigits n))
  exact decimalDigits_le positive (Nat.lt_of_le_of_lt le below)

/-- The loop ends with a number that counts itself, and with none that is larger than another. -/
theorem paxLengthFrom_least {turns size guess : Nat} (small : size + 4 < 10 ^ 4) (start : guess ≤ size + 4)
    (rising : guess ≤ size + decimalDigits guess) (enough : size + 4 - guess < turns) :
    CountsItself 10 size (paxLengthFrom turns size guess) ∧
      ∀ other, CountsItself 10 size other → guess ≤ other → paxLengthFrom turns size guess ≤ other := by
  induction turns generalizing guess with
  | zero => exact absurd enough (Nat.not_lt_zero _)
  | succ turns ih =>
      have digits := decimalDigits_le (by decide) (Nat.lt_of_le_of_lt start small)
      rw [paxLengthFrom]
      split
      · next settled => exact ⟨settled.symm, fun other _ above => above⟩
      · next moving =>
          have next_small : size + decimalDigits guess ≤ size + 4 := Nat.add_le_add_left digits size
          have next_rising := Nat.add_le_add_left (decimalDigits_mono rising) size
          have both := ih next_small next_rising (by omega)
          refine ⟨both.1, fun other counts above => both.2 other counts ?_⟩
          rw [counts]
          exact Nat.add_le_add_left (decimalDigits_mono above) size

/-- tarfile's length field is the least number that counts itself. -/
theorem paxRecordLength_least {path : Bytes} (short : path.length ≤ maxMemberNameBytes + 1) :
    CountsItself 10 (path.length + 7) (paxRecordLength path) ∧ paxRecordLength path ≤ path.length + 7 + 4 ∧
      ∀ other, CountsItself 10 (path.length + 7) other → paxRecordLength path ≤ other := by
  have key : (lit "path").length = 4 := by decide
  have size : (lit "path").length + path.length + 3 = path.length + 7 := by omega
  have small : path.length + 7 + 4 < 10 ^ 4 := by
    rw [maxMemberNameBytes] at short
    omega
  have positive : ∀ n, 0 < decimalDigits n := fun n => Nat.length_toDigits_pos
  have first : paxRecordLength path = paxLengthFrom (path.length + 7 + 2) (path.length + 7) (path.length + 7 + 1) := by
    have one : decimalDigits 0 = 1 := rfl
    rw [paxRecordLength]
    simp only [size]
    rw [paxLengthFrom]
    simp [one]
  have rising : path.length + 7 + 1 ≤ path.length + 7 + decimalDigits (path.length + 7 + 1) :=
    Nat.add_le_add_left (positive _) _
  have start : path.length + 7 + 1 ≤ path.length + 7 + 4 := by omega
  rw [first]
  have enough : path.length + 7 + 4 - (path.length + 7 + 1) < path.length + 7 + 2 := by omega
  rcases paxLengthFrom_least small start rising enough with ⟨counts, least⟩
  refine ⟨counts, paxLengthFrom_le small start, fun other also => least other also ?_⟩
  rw [also]
  exact Nat.add_le_add_left (positive other) _

/-- The payloads for one path are the records with a length that counts itself. -/
theorem accepts_iff {containsLocalHostPath : Bytes → Bool} {path other : Bytes}
    (allowed : PaxPath containsLocalHostPath path) :
    validateRawPaxPayload containsLocalHostPath other = .ok () ∧ Carries other path ↔
      ∃ n, CountsItself 10 (path.length + 7) n ∧ other = paxRecordOf n path := by
  constructor
  · rintro ⟨accepted, carries⟩
    rcases validateRawPaxPayload_iff.mp accepted with ⟨n, found, rfl, _, _, counts, _⟩
    cases path_of_carries carries
    exact ⟨n, counts, rfl⟩
  · rintro ⟨n, counts, rfl⟩
    refine ⟨validateRawPaxPayload_iff.mpr ⟨n, path, rfl, ?_, ?_, counts, allowed⟩, carries_paxRecordOf n path⟩
    · rw [counts]
      omega
    · have short := allowed.short
      rcases paxRecordLength_least short with ⟨also, bound, least⟩
      rw [maxMemberNameBytes] at short
      apply decimalDigits_le (by decide)
      rcases Nat.eq_or_lt_of_le (least n counts) with same | less
      · omega
      · rcases also.next (by decide) counts less with ⟨k, _, _, next, _⟩
        omega

/-- The sizes for which two lengths count themselves. -/
theorem two_lengths_iff {path : Bytes} (short : path.length ≤ maxMemberNameBytes + 1) :
    (∃ n, CountsItself 10 (path.length + 7) n ∧ n ≠ paxRecordLength path) ↔
      path.length = 1 ∨ path.length = 90 ∨ path.length = 989 := by
  rcases paxRecordLength_least short with ⟨counts, bound, least⟩
  constructor
  · rintro ⟨n, also, different⟩
    have less := Nat.lt_of_le_of_ne (least n also) (Ne.symm different)
    rcases counts.next (by decide) also less with ⟨k, positive, first, next, power⟩
    have few : k ≤ 4 := by omega
    rw [maxMemberNameBytes] at short
    rcases (by omega : k = 1 ∨ k = 2 ∨ k = 3 ∨ k = 4) with rfl | rfl | rfl | rfl <;> omega
  · -- The smaller of the two is what tarfile takes.
    have two : ∀ size low, path.length + 7 = size → CountsItself 10 size low → CountsItself 10 size (low + 1) →
        ∃ n, CountsItself 10 (path.length + 7) n ∧ n ≠ paxRecordLength path := by
      rintro size low rfl lower upper
      exact ⟨low + 1, upper, fun same => absurd (least low lower) (by omega)⟩
    rintro (one | ninety | many)
    · exact two 8 9 (by omega) (by decide) (by decide)
    · exact two 97 99 (by omega) (by decide) (by decide)
    · exact two 996 999 (by omega) (by decide) (by decide)

/-- One payload is accepted for a path, and it is tarfile's, except for three lengths of the path. -/
theorem paxPayload_unique_iff {containsLocalHostPath : Bytes → Bool} {path payload : Bytes}
    (accepted : validateRawPaxPayload containsLocalHostPath payload = .ok ()) (carries : Carries payload path) :
    (∀ other, validateRawPaxPayload containsLocalHostPath other = .ok () ∧ Carries other path ↔ other = paxRecord path) ↔
      path.length ≠ 1 ∧ path.length ≠ 90 ∧ path.length ≠ 989 := by
  have allowed : PaxPath containsLocalHostPath path := by
    rcases validateRawPaxPayload_iff.mp accepted with ⟨n, found, rfl, _, _, _, allowed⟩
    rwa [← path_of_carries carries]
  have least := paxRecordLength_least allowed.short
  have lengths := two_lengths_iff allowed.short
  have accepts := @accepts_iff containsLocalHostPath path
  constructor
  · intro unique
    have single : ¬ ∃ n, CountsItself 10 (path.length + 7) n ∧ n ≠ paxRecordLength path := by
      rintro ⟨n, counts, different⟩
      have same := congrArg List.length ((unique _).mp ((accepts allowed).mpr ⟨n, counts, rfl⟩))
      rw [paxRecord, length_paxRecordOf, length_paxRecordOf] at same
      have also := least.1
      unfold CountsItself at counts also
      unfold decimalDigits at same
      omega
    simpa [not_or] using mt lengths.mpr single
  · intro lone other
    rw [accepts allowed]
    constructor
    · rintro ⟨n, counts, rfl⟩
      by_contra different
      have two : n ≠ paxRecordLength path := fun same => different (by rw [same, paxRecord])
      have short := lengths.mp ⟨n, counts, two⟩
      omega
    · rintro rfl
      exact ⟨_, least.1, rfl⟩

theorem paxPayload_unique_iff_ab :
    (∀ other, validateRawPaxPayload (fun _ => false) other = .ok () ∧ Carries other (lit "ab") ↔
        other = paxRecord (lit "ab")) ↔
      (lit "ab").length ≠ 1 ∧ (lit "ab").length ≠ 90 ∧ (lit "ab").length ≠ 989 :=
  @paxPayload_unique_iff (fun _ => false) (lit "ab") (lit "11 path=ab\n") (eq_ok_of_toOption (by decide))
    ⟨lit "11", by decide, by decide⟩

/-- For the path `a` both `9 path=a` and `10 path=a` with their line ends are accepted. -/
theorem not_paxPayload_unique :
    ¬ ∀ (containsLocalHostPath : Bytes → Bool) (path payload : Bytes),
      validateRawPaxPayload containsLocalHostPath payload = .ok () → Carries payload path →
        ∀ other, validateRawPaxPayload containsLocalHostPath other = .ok () ∧ Carries other path ↔
          other = paxRecord path := by
  intro claim
  have nine : validateRawPaxPayload (fun _ => false) (lit "9 path=a\n") = .ok () :=
    eq_ok_of_toOption (by decide)
  have ten : validateRawPaxPayload (fun _ => false) (lit "10 path=a\n") = .ok () :=
    eq_ok_of_toOption (by decide)
  have carriesNine : Carries (lit "9 path=a\n") (lit "a") := ⟨lit "9", by decide, by decide⟩
  have carriesTen : Carries (lit "10 path=a\n") (lit "a") := ⟨lit "10", by decide, by decide⟩
  have first := (claim _ _ _ nine carriesNine _).mp ⟨nine, carriesNine⟩
  have second := (claim _ _ _ nine carriesNine _).mp ⟨ten, carriesTen⟩
  exact absurd (first.trans second.symm) (by decide)

end ExitfyCores.Bundle
