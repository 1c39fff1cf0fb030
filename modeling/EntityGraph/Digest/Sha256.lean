import EntityGraph.Text.Hex
/-!
The SHA-256 digest of a list of bytes, on words of 32 bits whose sums wrap around.
-/
namespace EntityGraph.Digest

/-- The fractional parts of the cube roots of the first 64 primes. -/
def roundConstants : List UInt32 := [
  0x428a2f98, 0x71374491, 0xb5c0fbcf, 0xe9b5dba5, 0x3956c25b, 0x59f111f1, 0x923f82a4, 0xab1c5ed5,
  0xd807aa98, 0x12835b01, 0x243185be, 0x550c7dc3, 0x72be5d74, 0x80deb1fe, 0x9bdc06a7, 0xc19bf174,
  0xe49b69c1, 0xefbe4786, 0x0fc19dc6, 0x240ca1cc, 0x2de92c6f, 0x4a7484aa, 0x5cb0a9dc, 0x76f988da,
  0x983e5152, 0xa831c66d, 0xb00327c8, 0xbf597fc7, 0xc6e00bf3, 0xd5a79147, 0x06ca6351, 0x14292967,
  0x27b70a85, 0x2e1b2138, 0x4d2c6dfc, 0x53380d13, 0x650a7354, 0x766a0abb, 0x81c2c92e, 0x92722c85,
  0xa2bfe8a1, 0xa81a664b, 0xc24b8b70, 0xc76c51a3, 0xd192e819, 0xd6990624, 0xf40e3585, 0x106aa070,
  0x19a4c116, 0x1e376c08, 0x2748774c, 0x34b0bcb5, 0x391c0cb3, 0x4ed8aa4a, 0x5b9cca4f, 0x682e6ff3,
  0x748f82ee, 0x78a5636f, 0x84c87814, 0x8cc70208, 0x90befffa, 0xa4506ceb, 0xbef9a3f7, 0xc67178f2]

/-- The eight working words. -/
structure State where
  a : UInt32
  b : UInt32
  c : UInt32
  d : UInt32
  e : UInt32
  f : UInt32
  g : UInt32
  h : UInt32

/-- The fractional parts of the square roots of the first eight primes. -/
def State.initial : State :=
  ⟨0x6a09e667, 0xbb67ae85, 0x3c6ef372, 0xa54ff53a, 0x510e527f, 0x9b05688c, 0x1f83d9ab, 0x5be0cd19⟩

def State.words (s : State) : List UInt32 := [s.a, s.b, s.c, s.d, s.e, s.f, s.g, s.h]

def State.add (s t : State) : State :=
  ⟨s.a + t.a, s.b + t.b, s.c + t.c, s.d + t.d, s.e + t.e, s.f + t.f, s.g + t.g, s.h + t.h⟩

/-- Turns a word by `n` bits to the right, for `n` between 1 and 31. -/
def rotateRight (x n : UInt32) : UInt32 := x >>> n ||| x <<< (32 - n)

/-- One round with its constant and its word of the schedule. -/
def State.round (s : State) (constant word : UInt32) : State :=
  let sum := rotateRight s.e 6 ^^^ rotateRight s.e 11 ^^^ rotateRight s.e 25
  let choice := (s.e &&& s.f) ^^^ (~~~s.e &&& s.g)
  let first := s.h + sum + choice + constant + word
  let turned := rotateRight s.a 2 ^^^ rotateRight s.a 13 ^^^ rotateRight s.a 22
  let majority := (s.a &&& s.b) ^^^ (s.a &&& s.c) ^^^ (s.b &&& s.c)
  ⟨first + (turned + majority), s.a, s.b, s.c, s.d + first, s.e, s.f, s.g⟩

/-- The next `count` words of a schedule whose last sixteen words are given. -/
def schedule (window : List UInt32) : (count : Nat) → List UInt32
  | 0 => []
  | count + 1 =>
    let early := window.getD 1 0
    let late := window.getD 14 0
    let word := window.getD 0 0 +
      (rotateRight early 7 ^^^ rotateRight early 18 ^^^ early >>> 3) + window.getD 9 0 +
      (rotateRight late 17 ^^^ rotateRight late 19 ^^^ late >>> 10)
    word :: schedule (window.drop 1 ++ [word]) count

/-- Works a block of sixteen words into a state. -/
def State.block (s : State) (words : List UInt32) : State :=
  ((roundConstants.zip (words ++ schedule words 48)).foldl
    (fun t (constant, word) => t.round constant word) s).add s

/-- The bytes of a number, most significant first, cut to `width` bytes. -/
def bytesOf : (width n : Nat) → List UInt8
  | 0, _ => []
  | width + 1, n => bytesOf width (n / 256) ++ [UInt8.ofNat (n % 256)]

/-- A mark, zeros and the count of bits fill the last block of 64 bytes. -/
def padded (message : List UInt8) : List UInt8 :=
  let zeros := (119 - message.length % 64) % 64
  message ++ 0x80 :: List.replicate zeros 0 ++ bytesOf 8 (message.length * 8)

/-- Four bytes make a word; fewer at the end are dropped. -/
def wordsOf : List UInt8 → List UInt32
  | a :: b :: c :: d :: rest =>
    (a.toUInt32 <<< 24 ||| b.toUInt32 <<< 16 ||| c.toUInt32 <<< 8 ||| d.toUInt32) :: wordsOf rest
  | _ => []

/-- Works the first `count` blocks of the words into a state. -/
def blocks (s : State) (words : List UInt32) : (count : Nat) → State
  | 0 => s
  | count + 1 => blocks (s.block (words.take 16)) (words.drop 16) count

def sha256 (message : List UInt8) : List UInt8 :=
  let words := wordsOf (padded message)
  (blocks .initial words (words.length / 16)).words.flatMap fun word => bytesOf 4 word.toNat

/-- The digest of a text in hexadecimal digits. -/
def sha256Hex (text : String) : List Char :=
  (sha256 text.toUTF8.toList).flatMap fun byte => Text.hexDigits 2 byte.toNat

end EntityGraph.Digest
