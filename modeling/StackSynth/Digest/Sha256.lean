/-
This file holds SHA-256 (FIPS 180-4) and the hexadecimal text of its digests. A digest is eight
words, so its text always has sixty-four digits, whatever was hashed.
-/

namespace StackSynth.Sha256

/-! ### The functions of one round -/

/-- A word turned right by `amount` places. -/
def rotate (word : UInt32) (amount : UInt32) : UInt32 :=
  (word >>> amount) ||| (word <<< (32 - amount))

/-- The diffusion of schedule words fifteen places back. -/
def smallSigma0 (word : UInt32) : UInt32 := rotate word 7 ^^^ rotate word 18 ^^^ (word >>> 3)

/-- The diffusion of schedule words two places back. -/
def smallSigma1 (word : UInt32) : UInt32 := rotate word 17 ^^^ rotate word 19 ^^^ (word >>> 10)

/-- The diffusion of the register `a`. -/
def bigSigma0 (word : UInt32) : UInt32 := rotate word 2 ^^^ rotate word 13 ^^^ rotate word 22

/-- The diffusion of the register `e`. -/
def bigSigma1 (word : UInt32) : UInt32 := rotate word 6 ^^^ rotate word 11 ^^^ rotate word 25

/-- Bits of `y` where `x` is set and of `z` elsewhere. -/
def choose (x y z : UInt32) : UInt32 := (x &&& y) ^^^ ((~~~x) &&& z)

/-- Bits set in at least two of the three words. -/
def majority (x y z : UInt32) : UInt32 := (x &&& y) ^^^ (x &&& z) ^^^ (y &&& z)

/-- The round constants: the first thirty-two fractional bits of the cube roots of the first
sixty-four primes. -/
def roundConstants : List UInt32 :=
  [0x428a2f98, 0x71374491, 0xb5c0fbcf, 0xe9b5dba5, 0x3956c25b, 0x59f111f1, 0x923f82a4, 0xab1c5ed5,
   0xd807aa98, 0x12835b01, 0x243185be, 0x550c7dc3, 0x72be5d74, 0x80deb1fe, 0x9bdc06a7, 0xc19bf174,
   0xe49b69c1, 0xefbe4786, 0x0fc19dc6, 0x240ca1cc, 0x2de92c6f, 0x4a7484aa, 0x5cb0a9dc, 0x76f988da,
   0x983e5152, 0xa831c66d, 0xb00327c8, 0xbf597fc7, 0xc6e00bf3, 0xd5a79147, 0x06ca6351, 0x14292967,
   0x27b70a85, 0x2e1b2138, 0x4d2c6dfc, 0x53380d13, 0x650a7354, 0x766a0abb, 0x81c2c92e, 0x92722c85,
   0xa2bfe8a1, 0xa81a664b, 0xc24b8b70, 0xc76c51a3, 0xd192e819, 0xd6990624, 0xf40e3585, 0x106aa070,
   0x19a4c116, 0x1e376c08, 0x2748774c, 0x34b0bcb5, 0x391c0cb3, 0x4ed8aa4a, 0x5b9cca4f, 0x682e6ff3,
   0x748f82ee, 0x78a5636f, 0x84c87814, 0x8cc70208, 0x90befffa, 0xa4506ceb, 0xbef9a3f7, 0xc67178f2]

/-- The eight chaining words. -/
structure Registers where
  a : UInt32
  b : UInt32
  c : UInt32
  d : UInt32
  e : UInt32
  f : UInt32
  g : UInt32
  h : UInt32
deriving DecidableEq, Repr

namespace Registers

/-- The starting words: the first thirty-two fractional bits of the square roots of the first
eight primes. -/
def initial : Registers :=
  ⟨0x6a09e667, 0xbb67ae85, 0x3c6ef372, 0xa54ff53a, 0x510e527f, 0x9b05688c, 0x1f83d9ab, 0x5be0cd19⟩

/-- The words in order. -/
def words (registers : Registers) : List UInt32 :=
  [registers.a, registers.b, registers.c, registers.d,
   registers.e, registers.f, registers.g, registers.h]

/-- One round with the sum of its constant and its schedule word. -/
def round (r : Registers) (input : UInt32) : Registers :=
  let first := r.h + bigSigma1 r.e + choose r.e r.f r.g + input
  let second := bigSigma0 r.a + majority r.a r.b r.c
  ⟨first + second, r.a, r.b, r.c, r.d + first, r.e, r.f, r.g⟩

/-- Registers added word by word. -/
def add (r s : Registers) : Registers :=
  ⟨r.a + s.a, r.b + s.b, r.c + s.c, r.d + s.d, r.e + s.e, r.f + s.f, r.g + s.g, r.h + s.h⟩

end Registers

/-! ### Blocks -/

/-- The bytes of the message, a bit set after its end, zeros up to eight bytes before a multiple of
sixty-four, and its length in bits. -/
def pad (message : ByteArray) : List UInt8 :=
  let zeros := (119 - message.size % 64) % 64
  let bits := (8 * message.size).toUInt64
  let length := (List.range 8).map (fun place => (bits >>> (56 - 8 * place).toUInt64).toUInt8)
  message.data.toList ++ 0x80 :: (List.replicate zeros 0 ++ length)

/-- Bytes read as words, four at a time, the first byte of a word being its highest. -/
def wordsOf : List UInt8 → List UInt32
  | first :: second :: third :: fourth :: rest =>
    ((first.toUInt32 <<< 24) ||| (second.toUInt32 <<< 16) ||| (third.toUInt32 <<< 8)
      ||| fourth.toUInt32) :: wordsOf rest
  | _ => []

/-- The schedule, latest word first, grown by one word. -/
def extendSchedule (words : List UInt32) : List UInt32 :=
  let back (distance : Nat) : UInt32 := words[distance - 1]?.getD 0
  (smallSigma1 (back 2) + back 7 + smallSigma0 (back 15) + back 16) :: words

/-- The sixty-four words that a block feeds to the rounds. -/
def schedule (block : List UInt32) : List UInt32 :=
  ((List.range 48).foldl (fun words _ => extendSchedule words) block.reverse).reverse

/-- The registers after a block. -/
def compress (registers : Registers) (block : List UInt32) : Registers :=
  let inputs := roundConstants.zipWith (· + ·) (schedule block)
  (inputs.foldl Registers.round registers).add registers

/-- The registers after a number of blocks of sixteen words. -/
def compressAll : Nat → Registers → List UInt32 → Registers
  | 0, registers, _ => registers
  | blocks + 1, registers, words =>
    compressAll blocks (compress registers (words.take 16)) (words.drop 16)

/-- The digest of a message. -/
def digest (message : ByteArray) : Registers :=
  let words := wordsOf (pad message)
  compressAll (words.length / 16) Registers.initial words

/-! ### Text -/

/-- The digit of a value below sixteen, in lower case. -/
def hexDigit (value : Nat) : Char :=
  if value < 10 then Char.ofNat (48 + value) else Char.ofNat (87 + value)

/-- The eight digits of a word. -/
def hexWord (word : UInt32) : List Char :=
  (List.range 8).map (fun place => hexDigit (word.toNat / Nat.pow 16 (7 - place) % 16))

/-- The sixty-four digits of a digest, in lower case. -/
def hexDigits (registers : Registers) : List Char :=
  registers.words.flatMap hexWord

theorem length_hexWord (word : UInt32) : (hexWord word).length = 8 := by
  simp [hexWord]

/-- Every digest is written with sixty-four digits. -/
theorem length_hexDigits (registers : Registers) : (hexDigits registers).length = 64 := by
  simp [hexDigits, Registers.words, length_hexWord]

/-- What a digest is written with are the digits of values below sixteen. -/
theorem exists_value_of_mem_hexDigits {registers : Registers} {digit : Char}
    (member : digit ∈ hexDigits registers) : ∃ value : Fin 16, hexDigit value.val = digit := by
  obtain ⟨word, _, inWord⟩ := List.mem_flatMap.mp member
  obtain ⟨place, _, rfl⟩ := List.mem_map.mp inWord
  exact ⟨⟨_, Nat.mod_lt _ (by decide)⟩, rfl⟩

end StackSynth.Sha256
