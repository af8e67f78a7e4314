/-!
# SHA-256

The 32-byte digest that identifies an image. A message is padded to whole blocks of 64 bytes;
each block is spread into a schedule of 64 words and mixed into eight running words.
-/

namespace LevelScript.Bytes.Sha256

/-- Fractional parts of the cube roots of the first 64 primes. -/
def roundConstants : Array UInt32 := #[
  0x428a2f98, 0x71374491, 0xb5c0fbcf, 0xe9b5dba5, 0x3956c25b, 0x59f111f1, 0x923f82a4, 0xab1c5ed5,
  0xd807aa98, 0x12835b01, 0x243185be, 0x550c7dc3, 0x72be5d74, 0x80deb1fe, 0x9bdc06a7, 0xc19bf174,
  0xe49b69c1, 0xefbe4786, 0x0fc19dc6, 0x240ca1cc, 0x2de92c6f, 0x4a7484aa, 0x5cb0a9dc, 0x76f988da,
  0x983e5152, 0xa831c66d, 0xb00327c8, 0xbf597fc7, 0xc6e00bf3, 0xd5a79147, 0x06ca6351, 0x14292967,
  0x27b70a85, 0x2e1b2138, 0x4d2c6dfc, 0x53380d13, 0x650a7354, 0x766a0abb, 0x81c2c92e, 0x92722c85,
  0xa2bfe8a1, 0xa81a664b, 0xc24b8b70, 0xc76c51a3, 0xd192e819, 0xd6990624, 0xf40e3585, 0x106aa070,
  0x19a4c116, 0x1e376c08, 0x2748774c, 0x34b0bcb5, 0x391c0cb3, 0x4ed8aa4a, 0x5b9cca4f, 0x682e6ff3,
  0x748f82ee, 0x78a5636f, 0x84c87814, 0x8cc70208, 0x90befffa, 0xa4506ceb, 0xbef9a3f7, 0xc67178f2]

/-- The eight running words of a digest. -/
structure State where
  a : UInt32
  b : UInt32
  c : UInt32
  d : UInt32
  e : UInt32
  f : UInt32
  g : UInt32
  h : UInt32

/-- Fractional parts of the square roots of the first eight primes. -/
def initial : State :=
  ⟨0x6a09e667, 0xbb67ae85, 0x3c6ef372, 0xa54ff53a, 0x510e527f, 0x9b05688c, 0x1f83d9ab, 0x5be0cd19⟩

def rotateRight (x n : UInt32) : UInt32 :=
  (x >>> n) ||| (x <<< (32 - n))

/-- The message, a one bit, zeros, and the length in bits as eight big-endian bytes. -/
def pad (message : Array UInt8) : Array UInt8 :=
  let zeros := (119 - message.size % 64) % 64
  let bits : UInt64 := message.size.toUInt64 * 8
  message.push 0x80 ++ Array.replicate zeros (0 : UInt8) ++
    #[(bits >>> 56).toUInt8, (bits >>> 48).toUInt8, (bits >>> 40).toUInt8, (bits >>> 32).toUInt8,
      (bits >>> 24).toUInt8, (bits >>> 16).toUInt8, (bits >>> 8).toUInt8, bits.toUInt8]

def bigEndianAt (bytes : Array UInt8) (i : Nat) : UInt32 :=
  let byte (k : Nat) : UInt32 := (bytes.getD (i + k) 0).toUInt32
  (byte 0 <<< 24) ||| (byte 1 <<< 16) ||| (byte 2 <<< 8) ||| byte 3

/-- The 64 words of a block: its own sixteen, then each from four earlier ones. -/
def schedule (bytes : Array UInt8) (block : Nat) : Array UInt32 :=
  let own := (Array.range 16).map fun t => bigEndianAt bytes (block * 64 + t * 4)
  (List.range 48).foldl
    (fun w _ =>
      let at' (back : Nat) : UInt32 := w.getD (w.size - back) 0
      let x := at' 15
      let y := at' 2
      let s₀ := rotateRight x 7 ^^^ rotateRight x 18 ^^^ (x >>> 3)
      let s₁ := rotateRight y 17 ^^^ rotateRight y 19 ^^^ (y >>> 10)
      w.push (at' 16 + s₀ + at' 7 + s₁))
    own

def round (w : Array UInt32) (s : State) (t : Nat) : State :=
  let s₁ := rotateRight s.e 6 ^^^ rotateRight s.e 11 ^^^ rotateRight s.e 25
  let choose := (s.e &&& s.f) ^^^ (~~~s.e &&& s.g)
  let t₁ := s.h + s₁ + choose + roundConstants.getD t 0 + w.getD t 0
  let s₀ := rotateRight s.a 2 ^^^ rotateRight s.a 13 ^^^ rotateRight s.a 22
  let majority := (s.a &&& s.b) ^^^ (s.a &&& s.c) ^^^ (s.b &&& s.c)
  ⟨t₁ + (s₀ + majority), s.a, s.b, s.c, s.d + t₁, s.e, s.f, s.g⟩

def compress (bytes : Array UInt8) (s : State) (block : Nat) : State :=
  let w := schedule bytes block
  let r := (List.range 64).foldl (round w) s
  ⟨s.a + r.a, s.b + r.b, s.c + r.c, s.d + r.d, s.e + r.e, s.f + r.f, s.g + r.g, s.h + r.h⟩

def bigEndian (v : UInt32) : List UInt8 :=
  [(v >>> 24).toUInt8, (v >>> 16).toUInt8, (v >>> 8).toUInt8, v.toUInt8]

/-- The digest of a message, 32 bytes. -/
def digest (message : Array UInt8) : List UInt8 :=
  let bytes := pad message
  let s := (List.range (bytes.size / 64)).foldl (compress bytes) initial
  [s.a, s.b, s.c, s.d, s.e, s.f, s.g, s.h].flatMap bigEndian

theorem length_digest (message : Array UInt8) : (digest message).length = 32 := rfl

end LevelScript.Bytes.Sha256
