import KeyCustody.Bytes.Basic

/-!
# The SHA-256 digest

`Sha256.digest` maps a byte string to thirty-two octets. The message is padded to whole blocks of
sixty-four octets (`pad`), each block is spread into sixty-four words (`schedule`) and mixed into
eight chaining words (`compress`), and the last chaining words are written out, most significant
octet first. `Sha256.length_digest` states the size of the result.
-/

namespace KeyCustody.Sha256

/-- The eight chaining words. -/
structure Chain where
  a : UInt32
  b : UInt32
  c : UInt32
  d : UInt32
  e : UInt32
  f : UInt32
  g : UInt32
  h : UInt32
  deriving DecidableEq

/-- The chaining words before the first block. -/
def Chain.start : Chain :=
  ⟨0x6a09e667, 0xbb67ae85, 0x3c6ef372, 0xa54ff53a, 0x510e527f, 0x9b05688c, 0x1f83d9ab, 0x5be0cd19⟩

/-- The constant of each of the sixty-four rounds. -/
def roundConstants : List UInt32 :=
  [0x428a2f98, 0x71374491, 0xb5c0fbcf, 0xe9b5dba5, 0x3956c25b, 0x59f111f1, 0x923f82a4, 0xab1c5ed5,
   0xd807aa98, 0x12835b01, 0x243185be, 0x550c7dc3, 0x72be5d74, 0x80deb1fe, 0x9bdc06a7, 0xc19bf174,
   0xe49b69c1, 0xefbe4786, 0x0fc19dc6, 0x240ca1cc, 0x2de92c6f, 0x4a7484aa, 0x5cb0a9dc, 0x76f988da,
   0x983e5152, 0xa831c66d, 0xb00327c8, 0xbf597fc7, 0xc6e00bf3, 0xd5a79147, 0x06ca6351, 0x14292967,
   0x27b70a85, 0x2e1b2138, 0x4d2c6dfc, 0x53380d13, 0x650a7354, 0x766a0abb, 0x81c2c92e, 0x92722c85,
   0xa2bfe8a1, 0xa81a664b, 0xc24b8b70, 0xc76c51a3, 0xd192e819, 0xd6990624, 0xf40e3585, 0x106aa070,
   0x19a4c116, 0x1e376c08, 0x2748774c, 0x34b0bcb5, 0x391c0cb3, 0x4ed8aa4a, 0x5b9cca4f, 0x682e6ff3,
   0x748f82ee, 0x78a5636f, 0x84c87814, 0x8cc70208, 0x90befffa, 0xa4506ceb, 0xbef9a3f7, 0xc67178f2]

/-- Rotation of a word to the right. -/
def rotate (x n : UInt32) : UInt32 := (x >>> n) ||| (x <<< (32 - n))

/-- The word written by four octets, most significant first. -/
def word (p q r s : UInt8) : UInt32 :=
  (p.toUInt32 <<< 24) ||| (q.toUInt32 <<< 16) ||| (r.toUInt32 <<< 8) ||| s.toUInt32

/-- The four octets of a word, most significant first. -/
def octets (w : UInt32) : Bytes :=
  [(w >>> 24).toUInt8, (w >>> 16).toUInt8, (w >>> 8).toUInt8, w.toUInt8]

/-- The words of a byte string, four octets each; a shorter rest is dropped. -/
def words : Bytes → List UInt32
  | p :: q :: r :: s :: rest => word p q r s :: words rest
  | _ => []

/-- The next `count` words of a schedule whose last sixteen words are `window`. -/
def extend : Nat → List UInt32 → List UInt32
  | 0, _ => []
  | count + 1, window =>
    let past := fun i => window.getD i 0
    let s0 := rotate (past 1) 7 ^^^ rotate (past 1) 18 ^^^ (past 1 >>> 3)
    let s1 := rotate (past 14) 17 ^^^ rotate (past 14) 19 ^^^ (past 14 >>> 10)
    let next := past 0 + s0 + past 9 + s1
    next :: extend count (window.tail ++ [next])

/-- The sixty-four words of a block. -/
def schedule (block : Bytes) : List UInt32 :=
  let first := words block
  first ++ extend 48 first

/-- One round with its constant and its word of the schedule. -/
def round (x : Chain) (step : UInt32 × UInt32) : Chain :=
  let s1 := rotate x.e 6 ^^^ rotate x.e 11 ^^^ rotate x.e 25
  let choice := (x.e &&& x.f) ^^^ ((~~~x.e) &&& x.g)
  let t1 := x.h + s1 + choice + step.1 + step.2
  let s0 := rotate x.a 2 ^^^ rotate x.a 13 ^^^ rotate x.a 22
  let majority := (x.a &&& x.b) ^^^ (x.a &&& x.c) ^^^ (x.b &&& x.c)
  ⟨t1 + (s0 + majority), x.a, x.b, x.c, x.d + t1, x.e, x.f, x.g⟩

/-- The chaining words after one more block. -/
def compress (x : Chain) (block : Bytes) : Chain :=
  let y := (roundConstants.zip (schedule block)).foldl round x
  ⟨x.a + y.a, x.b + y.b, x.c + y.c, x.d + y.d, x.e + y.e, x.f + y.f, x.g + y.g, x.h + y.h⟩

/-- The eight octets of a bit count, most significant first. -/
def bitCount (n : Nat) : Bytes :=
  (List.range 8).reverse.map fun i => UInt8.ofNat (n >>> (8 * i))

/-- The message with the bit one, as many zeros as fill the last block, and its bit count. -/
def pad (message : Bytes) : Bytes :=
  let size := message.length
  message ++ 0x80 :: (List.replicate ((119 - size % 64) % 64) 0 ++ bitCount (8 * size))

/-- The chaining words after the first `count` blocks of a padded message. -/
def absorb : Nat → Chain → Bytes → Chain
  | 0, x, _ => x
  | count + 1, x, message => absorb count (compress x (message.take 64)) (message.drop 64)

/-- The thirty-two octets of the digest of a message. -/
def digest (message : Bytes) : Bytes :=
  let padded := pad message
  let x := absorb (padded.length / 64) Chain.start padded
  [x.a, x.b, x.c, x.d, x.e, x.f, x.g, x.h].flatMap octets

theorem length_digest (message : Bytes) : (digest message).length = 32 := rfl

end KeyCustody.Sha256
