/-
Module: ExitfyCores.Lib.Sha256
Layer: Lib
Purpose: SHA-256 as `hashlib` computes it, and the form of its hexadecimal digest.
Imports: ExitfyCores.Lib.PyJson
Trusted boundary: human-reviewed spec
Main exports: sha256Hex, isHexText_sha256Hex
Open obligations: none
-/
import ExitfyCores.Lib.PyJson

namespace ExitfyCores.Py

/-! ### Words -/

/-- Big-endian words of four bytes. -/
def words32 : List UInt8 → List UInt32
  | a :: b :: c :: d :: rest =>
      (a.toUInt32 <<< 24 ||| b.toUInt32 <<< 16 ||| c.toUInt32 <<< 8 ||| d.toUInt32) :: words32 rest
  | _ => []

def rotateRight (word count : UInt32) : UInt32 := word >>> count ||| word <<< (32 - count)

/-- The fractional parts of the cube roots of the first primes. -/
def roundConstants : List UInt32 :=
  [0x428a2f98, 0x71374491, 0xb5c0fbcf, 0xe9b5dba5, 0x3956c25b, 0x59f111f1, 0x923f82a4, 0xab1c5ed5,
    0xd807aa98, 0x12835b01, 0x243185be, 0x550c7dc3, 0x72be5d74, 0x80deb1fe, 0x9bdc06a7, 0xc19bf174,
    0xe49b69c1, 0xefbe4786, 0x0fc19dc6, 0x240ca1cc, 0x2de92c6f, 0x4a7484aa, 0x5cb0a9dc, 0x76f988da,
    0x983e5152, 0xa831c66d, 0xb00327c8, 0xbf597fc7, 0xc6e00bf3, 0xd5a79147, 0x06ca6351, 0x14292967,
    0x27b70a85, 0x2e1b2138, 0x4d2c6dfc, 0x53380d13, 0x650a7354, 0x766a0abb, 0x81c2c92e, 0x92722c85,
    0xa2bfe8a1, 0xa81a664b, 0xc24b8b70, 0xc76c51a3, 0xd192e819, 0xd6990624, 0xf40e3585, 0x106aa070,
    0x19a4c116, 0x1e376c08, 0x2748774c, 0x34b0bcb5, 0x391c0cb3, 0x4ed8aa4a, 0x5b9cca4f, 0x682e6ff3,
    0x748f82ee, 0x78a5636f, 0x84c87814, 0x8cc70208, 0x90befffa, 0xa4506ceb, 0xbef9a3f7, 0xc67178f2]

/-! ### Blocks -/

/-- The eight words that a block changes. -/
structure ShaState where
  a : UInt32
  b : UInt32
  c : UInt32
  d : UInt32
  e : UInt32
  f : UInt32
  g : UInt32
  h : UInt32

/-- The fractional parts of the square roots of the first primes. -/
def ShaState.start : ShaState :=
  ⟨0x6a09e667, 0xbb67ae85, 0x3c6ef372, 0xa54ff53a,
    0x510e527f, 0x9b05688c, 0x1f83d9ab, 0x5be0cd19⟩

/-- A message filled up to whole blocks: behind it stand a one, zeros, and its length in bits. -/
def padMessage (raw : List UInt8) : List UInt8 :=
  let zeros := (119 - raw.length % 64) % 64
  let size := 8 * raw.length
  raw ++ 0x80 :: List.replicate zeros 0 ++ (List.range 8).map fun place => UInt8.ofNat (size / 256 ^ (7 - place))

/-- The next word of the schedule, from the words before it with the last one first. -/
def nextWord (words : List UInt32) : UInt32 :=
  let near := words.getD 1 0
  let far := words.getD 14 0
  let sigma1 := rotateRight near 17 ^^^ rotateRight near 19 ^^^ near >>> 10
  let sigma0 := rotateRight far 7 ^^^ rotateRight far 18 ^^^ far >>> 3
  sigma1 + words.getD 6 0 + sigma0 + words.getD 15 0

/-- The 64 words of a block. -/
def schedule (block : List UInt8) : List UInt32 :=
  ((List.range 48).foldl (fun words _ => nextWord words :: words) (words32 block).reverse).reverse

/-- One round. -/
def shaRound (state : ShaState) (input : UInt32 × UInt32) : ShaState :=
  let sum1 := rotateRight state.e 6 ^^^ rotateRight state.e 11 ^^^ rotateRight state.e 25
  let choice := (state.e &&& state.f) ^^^ (~~~state.e &&& state.g)
  let one := state.h + sum1 + choice + input.1 + input.2
  let sum0 := rotateRight state.a 2 ^^^ rotateRight state.a 13 ^^^ rotateRight state.a 22
  let majority := (state.a &&& state.b) ^^^ (state.a &&& state.c) ^^^ (state.b &&& state.c)
  ⟨one + (sum0 + majority), state.a, state.b, state.c, state.d + one, state.e, state.f, state.g⟩

def shaBlock (state : ShaState) (block : List UInt8) : ShaState :=
  let next := (roundConstants.zip (schedule block)).foldl shaRound state
  ⟨state.a + next.a, state.b + next.b, state.c + next.c, state.d + next.d, state.e + next.e, state.f + next.f,
    state.g + next.g, state.h + next.h⟩

/-! ### Digests -/

/-- The eight hexadecimal digits of a word. -/
def wordHex (word : UInt32) : Text :=
  (List.range 8).map fun place => (Nat.digitChar (word.toNat / 16 ^ (7 - place) % 16)).toNat

/-- `hashlib.sha256(raw).hexdigest()` -/
def sha256Hex (raw : List UInt8) : Text :=
  let message := padMessage raw
  let blocks := (List.range (message.length / 64)).map fun index => (message.drop (64 * index)).take 64
  let final := blocks.foldl shaBlock .start
  [final.a, final.b, final.c, final.d, final.e, final.f, final.g, final.h].flatMap wordHex

theorem isHexText_wordHex (word : UInt32) : isHexText 8 (wordHex word) = true := by
  have digits : ∀ digit < 16, isHexDigit digit.digitChar.toNat = true := by decide
  rw [isHexText, Bool.and_eq_true, List.all_eq_true]
  constructor
  · simp [wordHex]
  · intro c member
    obtain ⟨place, _, rfl⟩ := List.mem_map.mp member
    exact digits _ (Nat.mod_lt _ (by decide))

/-- A digest has 64 hexadecimal digits in lower case. -/
theorem isHexText_sha256Hex (raw : List UInt8) : isHexText 64 (sha256Hex raw) = true := by
  have each := fun word => Bool.and_eq_true_iff.mp (isHexText_wordHex word)
  rw [isHexText, Bool.and_eq_true, List.all_eq_true]
  constructor
  · simp [sha256Hex, fun word => beq_iff_eq.mp (each word).1]
  · intro c member
    obtain ⟨word, _, member⟩ := List.mem_flatMap.mp member
    exact List.all_eq_true.mp (each word).2 c member

example : sha256Hex [97, 98, 99] = text "ba7816bf8f01cfea414140de5dae2223b00361a396177a9cb410ff61f20015ad" := by
  decide +kernel

end ExitfyCores.Py
