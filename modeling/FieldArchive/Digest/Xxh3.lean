/-!
# XXH3

The 64-bit hash without a seed.  Short messages are mixed in one go, by length;
messages of more than 240 bytes run through eight accumulators in stripes of 64
bytes, sixteen stripes to a block.  Words are little-endian.
-/

namespace FieldArchive.Xxh3

def prime32x1 : UInt64 := 0x9E3779B1

def prime32x2 : UInt64 := 0x85EBCA77

def prime32x3 : UInt64 := 0xC2B2AE3D

def prime64x1 : UInt64 := 0x9E3779B185EBCA87

def prime64x2 : UInt64 := 0xC2B2AE3D27D4EB4F

def prime64x3 : UInt64 := 0x165667B19E3779F9

def prime64x4 : UInt64 := 0x85EBCA77C2B2AE63

def prime64x5 : UInt64 := 0x27D4EB2F165667C5

def mixer1 : UInt64 := 0x165667919E3779F9

def mixer2 : UInt64 := 0x9FB21C651E98DF25

/-- The bytes that messages are mixed with. -/
def secret : Array UInt8 :=
  #[0xb8, 0xfe, 0x6c, 0x39, 0x23, 0xa4, 0x4b, 0xbe, 0x7c, 0x01, 0x81, 0x2c, 0xf7, 0x21, 0xad, 0x1c,
    0xde, 0xd4, 0x6d, 0xe9, 0x83, 0x90, 0x97, 0xdb, 0x72, 0x40, 0xa4, 0xa4, 0xb7, 0xb3, 0x67, 0x1f,
    0xcb, 0x79, 0xe6, 0x4e, 0xcc, 0xc0, 0xe5, 0x78, 0x82, 0x5a, 0xd0, 0x7d, 0xcc, 0xff, 0x72, 0x21,
    0xb8, 0x08, 0x46, 0x74, 0xf7, 0x43, 0x24, 0x8e, 0xe0, 0x35, 0x90, 0xe6, 0x81, 0x3a, 0x26, 0x4c,
    0x3c, 0x28, 0x52, 0xbb, 0x91, 0xc3, 0x00, 0xcb, 0x88, 0xd0, 0x65, 0x8b, 0x1b, 0x53, 0x2e, 0xa3,
    0x71, 0x64, 0x48, 0x97, 0xa2, 0x0d, 0xf9, 0x4e, 0x38, 0x19, 0xef, 0x46, 0xa9, 0xde, 0xac, 0xd8,
    0xa8, 0xfa, 0x76, 0x3f, 0xe3, 0x9c, 0x34, 0x3f, 0xf9, 0xdc, 0xbb, 0xc7, 0xc7, 0x0b, 0x4f, 0x1d,
    0x8a, 0x51, 0xe0, 0x4b, 0xcd, 0xb4, 0x59, 0x31, 0xc8, 0x9f, 0x7e, 0xc9, 0xd9, 0x78, 0x73, 0x64,
    0xea, 0xc5, 0xac, 0x83, 0x34, 0xd3, 0xeb, 0xc3, 0xc5, 0x81, 0xa0, 0xff, 0xfa, 0x13, 0x63, 0xeb,
    0x17, 0x0d, 0xdd, 0x51, 0xb7, 0xf0, 0xda, 0x49, 0xd3, 0x16, 0x55, 0x26, 0x29, 0xd4, 0x68, 0x9e,
    0x2b, 0x16, 0xbe, 0x58, 0x7d, 0x47, 0xa1, 0xfc, 0x8f, 0xf8, 0xb8, 0xd1, 0x7a, 0xd0, 0x31, 0xce,
    0x45, 0xcb, 0x3a, 0x8f, 0x95, 0x16, 0x04, 0x28, 0xaf, 0xd7, 0xfb, 0xca, 0xbb, 0x4b, 0x40, 0x7e]

/-- The number of `count` bytes from a position on, least significant first. -/
def readBytes (bytes : Array UInt8) : (count : Nat) → (position : Nat) → UInt64
  | 0, _ => 0
  | count + 1, position =>
      (bytes.getD position 0).toUInt64 ||| (readBytes bytes count (position + 1) <<< 8)

def read32 (bytes : Array UInt8) (position : Nat) : UInt64 := readBytes bytes 4 position

def read64 (bytes : Array UInt8) (position : Nat) : UInt64 := readBytes bytes 8 position

/-- The two halves of the full product, combined. -/
def foldMul (x y : UInt64) : UInt64 :=
  let product := x.toNat * y.toNat
  UInt64.ofNat product ^^^ UInt64.ofNat (product >>> 64)

def rotateLeft (x n : UInt64) : UInt64 := (x <<< n) ||| (x >>> (64 - n))

/-- The bytes of a word in reverse. -/
def swapBytes (x : UInt64) : UInt64 :=
  (List.range 8).foldl (fun y i => (y <<< 8) ||| ((x >>> UInt64.ofNat (8 * i)) &&& 0xFF)) 0

def avalanche (x : UInt64) : UInt64 :=
  let x := (x ^^^ (x >>> 37)) * mixer1
  x ^^^ (x >>> 32)

def strongAvalanche (x : UInt64) : UInt64 :=
  let x := (x ^^^ (x >>> 33)) * prime64x2
  let x := (x ^^^ (x >>> 29)) * prime64x3
  x ^^^ (x >>> 32)

/-- Messages of one to three bytes. -/
def hash1to3 (message : Array UInt8) : UInt64 :=
  let n := message.size
  let first := (message.getD 0 0).toUInt64
  let middle := (message.getD (n / 2) 0).toUInt64
  let last := (message.getD (n - 1) 0).toUInt64
  let combined := (first <<< 16) ||| (middle <<< 24) ||| last ||| (UInt64.ofNat n <<< 8)
  strongAvalanche (combined ^^^ (read32 secret 0 ^^^ read32 secret 4))

/-- Messages of four to eight bytes. -/
def hash4to8 (message : Array UInt8) : UInt64 :=
  let n := message.size
  let word := read32 message (n - 4) + (read32 message 0 <<< 32)
  let x := word ^^^ (read64 secret 8 ^^^ read64 secret 16)
  let x := (x ^^^ rotateLeft x 49 ^^^ rotateLeft x 24) * mixer2
  let x := (x ^^^ ((x >>> 35) + UInt64.ofNat n)) * mixer2
  x ^^^ (x >>> 28)

/-- Messages of nine to sixteen bytes. -/
def hash9to16 (message : Array UInt8) : UInt64 :=
  let n := message.size
  let low := read64 message 0 ^^^ (read64 secret 24 ^^^ read64 secret 32)
  let high := read64 message (n - 8) ^^^ (read64 secret 40 ^^^ read64 secret 48)
  avalanche (UInt64.ofNat n + swapBytes low + high + foldMul low high)

/-- Sixteen bytes of the message mixed with sixteen of the secret. -/
def mix16 (message : Array UInt8) (position key : Nat) : UInt64 :=
  foldMul (read64 message position ^^^ read64 secret key)
    (read64 message (position + 8) ^^^ read64 secret (key + 8))

/-- Messages of 17 to 128 bytes: pairs from both ends towards the middle. -/
def hash17to128 (message : Array UInt8) : UInt64 :=
  let n := message.size
  let pairs := (n - 1) / 32 + 1
  avalanche <| (List.range pairs).foldl
    (fun acc i =>
      acc + mix16 message (16 * i) (32 * i) + mix16 message (n - 16 * (i + 1)) (32 * i + 16))
    (UInt64.ofNat n * prime64x1)

/-- Messages of 129 to 240 bytes. -/
def hash129to240 (message : Array UInt8) : UInt64 :=
  let n := message.size
  let start := (List.range 8).foldl (fun acc i => acc + mix16 message (16 * i) (16 * i))
    (UInt64.ofNat n * prime64x1)
  let rest := (List.range (n / 16 - 8)).foldl
    (fun acc i => acc + mix16 message (16 * (i + 8)) (16 * i + 3))
    (mix16 message (n - 16) 119)
  avalanche (avalanche start + rest)

/-- The accumulators before the first stripe. -/
def initialAccumulators : List UInt64 :=
  [prime32x3, prime64x1, prime64x2, prime64x3, prime64x4, prime32x2, prime64x5, prime32x1]

/-- Mix a stripe of 64 bytes into the accumulators: each takes the word of its
neighbour and the product of the halves of its own keyed word. -/
def accumulate (message : Array UInt8) (accs : List UInt64) (position key : Nat) : List UInt64 :=
  accs.mapIdx fun i (acc : UInt64) =>
    let neighbour := if i % 2 = 0 then i + 1 else i - 1
    let keyed := read64 message (position + 8 * i) ^^^ read64 secret (key + 8 * i)
    acc + read64 message (position + 8 * neighbour) +
      (keyed &&& (0xFFFFFFFF : UInt64)) * (keyed >>> 32)

/-- `count` stripes from a position on; each moves eight bytes on in the
secret. -/
def accumulateStripes (message : Array UInt8) (accs : List UInt64) (position count : Nat) :
    List UInt64 :=
  (List.range count).foldl
    (fun accs i => accumulate message accs (position + 64 * i) (8 * i)) accs

/-- Scramble the accumulators after a block. -/
def scramble (accs : List UInt64) : List UInt64 :=
  accs.mapIdx fun i (acc : UInt64) =>
    ((acc ^^^ (acc >>> 47)) ^^^ read64 secret (128 + 8 * i)) * prime32x1

/-- Fold the accumulators into one word. -/
def merge (accs : List UInt64) (start : UInt64) : UInt64 :=
  avalanche <| (List.range 4).foldl
    (fun acc i =>
      acc + foldMul (accs.getD (2 * i) 0 ^^^ read64 secret (11 + 16 * i))
        (accs.getD (2 * i + 1) 0 ^^^ read64 secret (19 + 16 * i)))
    start

/-- Messages of more than 240 bytes. -/
def hashLong (message : Array UInt8) : UInt64 :=
  let n := message.size
  let blocks := (n - 1) / 1024
  let accs := (List.range blocks).foldl
    (fun accs b => scramble (accumulateStripes message accs (1024 * b) 16)) initialAccumulators
  let stripes := (n - 1 - 1024 * blocks) / 64
  let accs := accumulateStripes message accs (1024 * blocks) stripes
  let accs := accumulate message accs (n - 64) 121
  merge accs (UInt64.ofNat n * prime64x1)

/-- The hash of a message. -/
def hash (message : List UInt8) : UInt64 :=
  let bytes := message.toArray
  let n := bytes.size
  if n = 0 then strongAvalanche (read64 secret 56 ^^^ read64 secret 64)
  else if n ≤ 3 then hash1to3 bytes
  else if n ≤ 8 then hash4to8 bytes
  else if n ≤ 16 then hash9to16 bytes
  else if n ≤ 128 then hash17to128 bytes
  else if n ≤ 240 then hash129to240 bytes
  else hashLong bytes

end FieldArchive.Xxh3
