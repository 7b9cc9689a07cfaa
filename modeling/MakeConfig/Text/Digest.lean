import MakeConfig.Text.Blank
import MakeConfig.Text.Octets

/-! # Digests

Numbers of a fixed size that are computed from all bytes of a text: a cyclic check, and the digests
that cut a text into blocks and stir each block into a state of a few words. Behind the text stand
a mark, zeros up to the end of a block, and the length of the text in bits.
-/

namespace MakeConfig.Text.Digest

/-! ## Cyclic check -/

def crcBit (crc : UInt32) : UInt32 :=
  if crc ≥ 0x80000000 then (crc <<< 1) ^^^ 0x04C11DB7 else crc <<< 1

def crcBits : Nat → UInt32 → UInt32
  | 0, crc => crc
  | n + 1, crc => crcBits n (crcBit crc)

def crcByte (crc : UInt32) (byte : Nat) : UInt32 := crcBits 8 (crc ^^^ UInt32.ofNat (byte * 0x1000000))

/-- The bytes of a number, the lowest first, without zeros at the end. -/
def bytesOf : Nat → Nat → List Nat
  | 0, _ | _, 0 => []
  | fuel + 1, n => n % 256 :: bytesOf fuel (n / 256)

/-- The check of a text and of its length behind it. -/
def check (text : Octets) : Nat :=
  let length := text.length
  let crc := (text.map Char.toNat ++ bytesOf length length).foldl crcByte 0
  (0xFFFFFFFF ^^^ crc).toNat

/-! ## Blocks of words -/

variable {w : Nat}

/-- A word of bytes, the highest first. -/
def word (w : Nat) (bytes : List Nat) : BitVec w :=
  BitVec.ofNat w (bytes.foldl (fun n b => n * 256 + b) 0)

/-- So many bytes of a number, the highest first. -/
def spell : Nat → Nat → List Nat
  | 0, _ => []
  | count + 1, n => spell count (n / 256) ++ [n % 256]

/-- A text with what stands behind it, in blocks. The length takes an eighth of a block. -/
def blocks (size : Nat) (lowFirst : Bool) (text : Octets) : List (List Nat) :=
  let ends := size / 8
  let length := spell ends (text.length * 8)
  let zeros := (2 * size - 1 - ends - text.length % size) % size
  chunks size (text.map Char.toNat ++ 0x80 :: List.replicate zeros 0 ++
    if lowFirst then length.reverse else length)

def hex (n : Nat) : Octets :=
  let digit (d : Nat) : Char := Char.ofNat (if d < 10 then 48 + d else 87 + d)
  [digit (n / 16 % 16), digit (n % 16)]

def hexText (bytes : List Nat) : Octets := bytes.flatMap hex

/-- A word of the ones before: the last one is at place 1. -/
def back (words : Array (BitVec w)) (place : Nat) : BitVec w := words.getD (words.size - place) 0

/-- Add so many words, each made of the ones before. -/
def extend (next : Array (BitVec w) → BitVec w) : Nat → Array (BitVec w) → Array (BitVec w)
  | 0, words => words
  | count + 1, words => extend next count (words.push (next words))

/-- Add the words of two states. -/
def plus (a b : List (BitVec w)) : List (BitVec w) := List.zipWith (· + ·) a b

/-- Where one word says so take the second one, elsewhere the third. -/
def choose (a b c : BitVec w) : BitVec w := (a &&& b) ||| (~~~a &&& c)

def majority (a b c : BitVec w) : BitVec w := (a &&& b) ||| (a &&& c) ||| (b &&& c)

def parity (a b c : BitVec w) : BitVec w := a ^^^ b ^^^ c

/-! ## Digest of 128 bits -/

/-- The sines of the numbers from one on, without sign, in parts of 2 to the power of 32. -/
def sines : List Nat :=
  [0xd76aa478, 0xe8c7b756, 0x242070db, 0xc1bdceee, 0xf57c0faf, 0x4787c62a, 0xa8304613, 0xfd469501,
    0x698098d8, 0x8b44f7af, 0xffff5bb1, 0x895cd7be, 0x6b901122, 0xfd987193, 0xa679438e, 0x49b40821,
    0xf61e2562, 0xc040b340, 0x265e5a51, 0xe9b6c7aa, 0xd62f105d, 0x02441453, 0xd8a1e681, 0xe7d3fbc8,
    0x21e1cde6, 0xc33707d6, 0xf4d50d87, 0x455a14ed, 0xa9e3e905, 0xfcefa3f8, 0x676f02d9, 0x8d2a4c8a,
    0xfffa3942, 0x8771f681, 0x6d9d6122, 0xfde5380c, 0xa4beea44, 0x4bdecfa9, 0xf6bb4b60, 0xbebfbc70,
    0x289b7ec6, 0xeaa127fa, 0xd4ef3085, 0x04881d05, 0xd9d4d039, 0xe6db99e5, 0x1fa27cf8, 0xc4ac5665,
    0xf4292244, 0x432aff97, 0xab9423a7, 0xfc93a039, 0x655b59c3, 0x8f0ccc92, 0xffeff47d, 0x85845dd1,
    0x6fa87e4f, 0xfe2ce6e0, 0xa3014314, 0x4e0811a1, 0xf7537e82, 0xbd3af235, 0x2ad7d2bb, 0xeb86d391]

/-- How a round mixes three words, and which word of the block it takes. -/
def mixture (round : Nat) (b c d : BitVec 32) : BitVec 32 × Nat :=
  match round / 16 with
  | 0 => (choose b c d, round)
  | 1 => (choose d b c, (5 * round + 1) % 16)
  | 2 => (parity b c d, (3 * round + 5) % 16)
  | _ => (c ^^^ (b ||| ~~~d), 7 * round % 16)

def turns (round : Nat) : Nat :=
  let four := match round / 16 with
    | 0 => [7, 12, 17, 22]
    | 1 => [5, 9, 14, 20]
    | 2 => [4, 11, 16, 23]
    | _ => [6, 10, 15, 21]
  four.getD (round % 4) 0

def shortRound (block : Array (BitVec 32)) (state : List (BitVec 32)) (step : Nat × Nat) :
    List (BitVec 32) :=
  match state with
  | [a, b, c, d] =>
    let (mixed, place) := mixture step.2 b c d
    let sum := a + mixed + BitVec.ofNat 32 step.1 + block.getD place 0
    [d, b + sum.rotateLeft (turns step.2), b, c]
  | state => state

def digest128 (text : Octets) : Octets :=
  let start := [0x67452301, 0xefcdab89, 0x98badcfe, 0x10325476].map (BitVec.ofNat 32)
  let final := (blocks 64 true text).foldl (fun state block =>
    let words := ((chunks 4 block).map fun g => word 32 g.reverse).toArray
    plus state (sines.zipIdx.foldl (shortRound words) state)) start
  hexText (final.flatMap fun x => (spell 4 x.toNat).reverse)

/-! ## Digest of 160 bits -/

def longRound (state : List (BitVec 32)) (step : BitVec 32 × Nat) : List (BitVec 32) :=
  match state with
  | [a, b, c, d, e] =>
    let (mixed, constant) := match step.2 / 20 with
      | 0 => (choose b c d, 0x5a827999)
      | 1 => (parity b c d, 0x6ed9eba1)
      | 2 => (majority b c d, 0x8f1bbcdc)
      | _ => (parity b c d, 0xca62c1d6)
    [a.rotateLeft 5 + mixed + e + BitVec.ofNat 32 constant + step.1, a, b.rotateLeft 30, c, d]
  | state => state

def digest160 (text : Octets) : Octets :=
  let start := [0x67452301, 0xefcdab89, 0x98badcfe, 0x10325476, 0xc3d2e1f0].map (BitVec.ofNat 32)
  let final := (blocks 64 false text).foldl (fun state block =>
    let words := extend (fun ws => (back ws 3 ^^^ back ws 8 ^^^ back ws 14 ^^^ back ws 16).rotateLeft 1)
      64 ((chunks 4 block).map (word 32)).toArray
    plus state (words.toList.zipIdx.foldl longRound state)) start
  hexText (final.flatMap fun x => spell 4 x.toNat)

/-! ## Digests from roots of primes -/

def isPrime (n : Nat) : Bool := n ≥ 2 && (List.range n).all fun d => d < 2 || n % d != 0

/-- The first eighty primes. -/
def primes : List Nat := (List.range 410).filter isPrime

/-- The largest number of so many bits whose power is not above a bound. -/
def root (degree bound : Nat) : Nat → Nat → Nat
  | 0, found => found
  | bits + 1, found =>
    let more := found + (1 <<< bits)
    root degree bound bits (if Nat.pow more degree ≤ bound then more else found)

/-- So many bits behind the point of a root. -/
def fraction (degree bits n : Nat) : Nat :=
  root degree (n <<< (degree * bits)) (bits + 8) 0 % (1 <<< bits)

/-- What digests of one width of words differ in: the constants of their rounds, and by how much words
are turned. Of the last two lists the third number is a shift. -/
structure Family (w : Nat) where
  constants : List (BitVec w)
  wide0 : Nat × Nat × Nat
  wide1 : Nat × Nat × Nat
  narrow0 : Nat × Nat × Nat
  narrow1 : Nat × Nat × Nat

def turned (angles : Nat × Nat × Nat) (x : BitVec w) : BitVec w :=
  parity (x.rotateRight angles.1) (x.rotateRight angles.2.1) (x.rotateRight angles.2.2)

def shifted (angles : Nat × Nat × Nat) (x : BitVec w) : BitVec w :=
  parity (x.rotateRight angles.1) (x.rotateRight angles.2.1) (x >>> angles.2.2)

def small : Family 32 :=
  ⟨(primes.take 64).map fun p => BitVec.ofNat 32 (fraction 3 32 p), (2, 13, 22), (6, 11, 25),
    (7, 18, 3), (17, 19, 10)⟩

def large : Family 64 :=
  ⟨primes.map fun p => BitVec.ofNat 64 (fraction 3 64 p), (28, 34, 39), (14, 18, 41),
    (1, 8, 7), (19, 61, 6)⟩

def round (f : Family w) (state : List (BitVec w)) (step : BitVec w × BitVec w) : List (BitVec w) :=
  match state with
  | [a, b, c, d, e, u, v, h] =>
    let first := h + turned f.wide1 e + choose e u v + step.1 + step.2
    let second := turned f.wide0 a + majority a b c
    [first + second, a, b, c, d + first, e, u, v]
  | state => state

/-- A digest of so many bytes. -/
def digest (f : Family w) (start : List (BitVec w)) (size : Nat) (text : Octets) : Octets :=
  let bytes := w / 8
  let next (ws : Array (BitVec w)) : BitVec w :=
    back ws 16 + shifted f.narrow0 (back ws 15) + back ws 7 + shifted f.narrow1 (back ws 2)
  let final := (blocks (16 * bytes) false text).foldl (fun state block =>
    let words := extend next (f.constants.length - 16) ((chunks bytes block).map (word w)).toArray
    plus state ((f.constants.zip words.toList).foldl (round f) state)) start
  hexText ((final.flatMap fun x => spell bytes x.toNat).take size)

/-- Roots of the first eight primes, or of the eight after them. -/
def roots (bits : Nat) (second : Bool) : List Nat :=
  ((primes.drop (if second then 8 else 0)).take 8).map (fraction 2 bits)

def digest224 : Octets → Octets := digest small ((roots 64 true).map (BitVec.ofNat 32)) 28

def digest256 : Octets → Octets := digest small ((roots 32 false).map (BitVec.ofNat 32)) 32

def digest384 : Octets → Octets := digest large ((roots 64 true).map (BitVec.ofNat 64)) 48

def digest512 : Octets → Octets := digest large ((roots 64 false).map (BitVec.ofNat 64)) 64

end MakeConfig.Text.Digest
