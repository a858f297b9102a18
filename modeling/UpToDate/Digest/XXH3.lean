import UpToDate.Bytes

namespace UpToDate.XXH3

def secret : ByteArray :=
  ⟨#[
    0xb8, 0xfe, 0x6c, 0x39, 0x23, 0xa4, 0x4b, 0xbe, 0x7c, 0x01, 0x81, 0x2c, 0xf7, 0x21, 0xad, 0x1c,
    0xde, 0xd4, 0x6d, 0xe9, 0x83, 0x90, 0x97, 0xdb, 0x72, 0x40, 0xa4, 0xa4, 0xb7, 0xb3, 0x67, 0x1f,
    0xcb, 0x79, 0xe6, 0x4e, 0xcc, 0xc0, 0xe5, 0x78, 0x82, 0x5a, 0xd0, 0x7d, 0xcc, 0xff, 0x72, 0x21,
    0xb8, 0x08, 0x46, 0x74, 0xf7, 0x43, 0x24, 0x8e, 0xe0, 0x35, 0x90, 0xe6, 0x81, 0x3a, 0x26, 0x4c,
    0x3c, 0x28, 0x52, 0xbb, 0x91, 0xc3, 0x00, 0xcb, 0x88, 0xd0, 0x65, 0x8b, 0x1b, 0x53, 0x2e, 0xa3,
    0x71, 0x64, 0x48, 0x97, 0xa2, 0x0d, 0xf9, 0x4e, 0x38, 0x19, 0xef, 0x46, 0xa9, 0xde, 0xac, 0xd8,
    0xa8, 0xfa, 0x76, 0x3f, 0xe3, 0x9c, 0x34, 0x3f, 0xf9, 0xdc, 0xbb, 0xc7, 0xc7, 0x0b, 0x4f, 0x1d,
    0x8a, 0x51, 0xe0, 0x4b, 0xcd, 0xb4, 0x59, 0x31, 0xc8, 0x9f, 0x7e, 0xc9, 0xd9, 0x78, 0x73, 0x64,
    0xea, 0xc5, 0xac, 0x83, 0x34, 0xd3, 0xeb, 0xc3, 0xc5, 0x81, 0xa0, 0xff, 0xfa, 0x13, 0x63, 0xeb,
    0x17, 0x0d, 0xdd, 0x51, 0xb7, 0xf0, 0xda, 0x49, 0xd3, 0x16, 0x55, 0x26, 0x29, 0xd4, 0x68, 0x9e,
    0x2b, 0x16, 0xbe, 0x58, 0x7d, 0x47, 0xa1, 0xfc, 0x8f, 0xf8, 0xb8, 0xd1, 0x7a, 0xd0, 0x31, 0xce,
    0x45, 0xcb, 0x3a, 0x8f, 0x95, 0x16, 0x04, 0x28, 0xaf, 0xd7, 0xfb, 0xca, 0xbb, 0x4b, 0x40, 0x7e]⟩

def prime32a : UInt64 := 0x9E3779B1
def prime32b : UInt64 := 0x85EBCA77
def prime32c : UInt64 := 0xC2B2AE3D
def prime64a : UInt64 := 0x9E3779B185EBCA87
def prime64b : UInt64 := 0xC2B2AE3D27D4EB4F
def prime64c : UInt64 := 0x165667B19E3779F9
def prime64d : UInt64 := 0x85EBCA77C2B2AE63
def prime64e : UInt64 := 0x27D4EB2F165667C5

structure Wide where
  low : UInt64
  high : UInt64

def byteAt (a : ByteArray) (i : Nat) : UInt64 :=
  if h : i < a.size then a[i].toUInt64 else 0

def wordAt (a : ByteArray) (i : Nat) : (n : Nat) → UInt64
  | 0 => 0
  | n + 1 => (wordAt a (i + 1) n <<< 8) ||| byteAt a i

def word32 (a : ByteArray) (i : Nat) : UInt64 := wordAt a i 4

def word64 (a : ByteArray) (i : Nat) : UInt64 := wordAt a i 8

def reverseBytes (n : Nat) (w : UInt64) : UInt64 :=
  (List.range n).foldl (fun r k ↦ (r <<< 8) ||| ((w >>> (8 * UInt64.ofNat k)) &&& 0xff)) 0

def rotateLeft32 (w k : UInt64) : UInt64 := ((w <<< k) ||| (w >>> (32 - k))) &&& 0xffffffff

def multiply (a b : UInt64) : Wide :=
  let p := a.toNat * b.toNat
  ⟨UInt64.ofNat p, UInt64.ofNat (p / 0x10000000000000000)⟩

def multiplyFold (a b : UInt64) : UInt64 :=
  let p := multiply a b
  p.low ^^^ p.high

def avalanche (h : UInt64) : UInt64 :=
  let h := h ^^^ (h >>> 37)
  let h := h * 0x165667919E3779F9
  h ^^^ (h >>> 32)

def avalancheSmall (h : UInt64) : UInt64 :=
  let h := h ^^^ (h >>> 33)
  let h := h * prime64b
  let h := h ^^^ (h >>> 29)
  let h := h * prime64c
  h ^^^ (h >>> 32)

def hashEmpty : Wide :=
  ⟨avalancheSmall (word64 secret 64 ^^^ word64 secret 72),
    avalancheSmall (word64 secret 80 ^^^ word64 secret 88)⟩

/-- One to three bytes. -/
def hashTiny (a : ByteArray) : Wide :=
  let n := a.size
  let low := (byteAt a 0 <<< 16) ||| (byteAt a (n / 2) <<< 24) ||| byteAt a (n - 1) |||
    (UInt64.ofNat n <<< 8)
  let high := rotateLeft32 (reverseBytes 4 low) 13
  ⟨avalancheSmall (low ^^^ (word32 secret 0 ^^^ word32 secret 4)),
    avalancheSmall (high ^^^ (word32 secret 8 ^^^ word32 secret 12))⟩

/-- Four to eight bytes. -/
def hashShort (a : ByteArray) : Wide :=
  let n := a.size
  let input := word32 a 0 + (word32 a (n - 4) <<< 32)
  let keyed := input ^^^ (word64 secret 16 ^^^ word64 secret 24)
  let m := multiply keyed (prime64a + (UInt64.ofNat n <<< 2))
  let high := m.high + (m.low <<< 1)
  let low := m.low ^^^ (high >>> 3)
  let low := (low ^^^ (low >>> 35)) * 0x9FB21C651E98DF25
  ⟨low ^^^ (low >>> 28), avalanche high⟩

/-- Nine to sixteen bytes. -/
def hashMedium (a : ByteArray) : Wide :=
  let n := a.size
  let first := word64 a 0
  let last := word64 a (n - 8)
  let m := multiply (first ^^^ last ^^^ (word64 secret 32 ^^^ word64 secret 40)) prime64a
  let low := m.low + (UInt64.ofNat (n - 1) <<< 54)
  let last := last ^^^ (word64 secret 48 ^^^ word64 secret 56)
  let high := m.high + (last + (last &&& 0xffffffff) * (prime32b - 1))
  let low := low ^^^ reverseBytes 8 high
  let p := multiply low prime64b
  ⟨avalanche p.low, avalanche (p.high + high * prime64b)⟩

def mix16 (a : ByteArray) (i s : Nat) : UInt64 :=
  multiplyFold (word64 a i ^^^ word64 secret s) (word64 a (i + 8) ^^^ word64 secret (s + 8))

def mix32 (a : ByteArray) (w : Wide) (i j s : Nat) : Wide :=
  ⟨(w.low + mix16 a i s) ^^^ (word64 a j + word64 a (j + 8)),
    (w.high + mix16 a j (s + 16)) ^^^ (word64 a i + word64 a (i + 8))⟩

def finish (n : Nat) (w : Wide) : Wide :=
  ⟨avalanche (w.low + w.high),
    0 - avalanche (w.low * prime64a + w.high * prime64d + UInt64.ofNat n * prime64b)⟩

def start (n : Nat) : Wide := ⟨UInt64.ofNat n * prime64a, 0⟩

/-- 17 to 128 bytes: from the middle outwards, 16 bytes at each end at a time. -/
def hashLong (a : ByteArray) : Wide :=
  let n := a.size
  let rounds := (n - 1) / 32
  finish n <| (List.range (rounds + 1)).reverse.foldl
    (fun w k ↦ mix32 a w (16 * k) (n - 16 * (k + 1)) (32 * k)) (start n)

/-- 129 to 240 bytes. -/
def hashLonger (a : ByteArray) : Wide :=
  let n := a.size
  let w := (List.range 4).foldl (fun w k ↦ mix32 a w (32 * k) (32 * k + 16) (32 * k)) (start n)
  let w : Wide := ⟨avalanche w.low, avalanche w.high⟩
  let w := (List.range (n / 32 - 4)).foldl
    (fun w k ↦ mix32 a w (32 * (k + 4)) (32 * (k + 4) + 16) (32 * k + 3)) w
  finish n (mix32 a w (n - 16) (n - 32) 103)

/-- The eight accumulators of an input of more than 240 bytes. -/
abbrev Lanes := Vector UInt64 8

def initialLanes : Lanes :=
  #v[prime32c, prime64a, prime64b, prime64c, prime64d, prime32b, prime64e, prime32a]

def accumulate (a : ByteArray) (i s : Nat) (v : Lanes) : Lanes :=
  Vector.ofFn fun k ↦
    let key := word64 a (i + 8 * k) ^^^ word64 secret (s + 8 * k)
    let neighbour := if k.val % 2 = 0 then k.val + 1 else k.val - 1
    v[k] + word64 a (i + 8 * neighbour) + (key &&& (0xffffffff : UInt64)) * (key >>> (32 : UInt64))

def scramble (v : Lanes) : Lanes :=
  Vector.ofFn fun k ↦
    let w := v[k]
    ((w ^^^ (w >>> 47)) ^^^ word64 secret (128 + 8 * k)) * prime32a

def stripes (a : ByteArray) (i n : Nat) (v : Lanes) : Lanes :=
  (List.range n).foldl (fun v k ↦ accumulate a (i + 64 * k) (8 * k) v) v

def merge (v : Lanes) (s : Nat) (w : UInt64) : UInt64 :=
  avalanche <| w + multiplyFold (v[0] ^^^ word64 secret s) (v[1] ^^^ word64 secret (s + 8)) +
    multiplyFold (v[2] ^^^ word64 secret (s + 16)) (v[3] ^^^ word64 secret (s + 24)) +
    multiplyFold (v[4] ^^^ word64 secret (s + 32)) (v[5] ^^^ word64 secret (s + 40)) +
    multiplyFold (v[6] ^^^ word64 secret (s + 48)) (v[7] ^^^ word64 secret (s + 56))

/-- More than 240 bytes: blocks of sixteen stripes, the stripes of the last block, and the last
64 bytes once more. -/
def hashBlocks (a : ByteArray) : Wide :=
  let n := a.size
  let blocks := (n - 1) / 1024
  let v := (List.range blocks).foldl (fun v b ↦ scramble (stripes a (1024 * b) 16 v)) initialLanes
  let v := stripes a (1024 * blocks) ((n - 1 - 1024 * blocks) / 64) v
  let v := accumulate a (n - 64) 121 v
  ⟨merge v 11 (UInt64.ofNat n * prime64a), merge v 117 (~~~(UInt64.ofNat n * prime64b))⟩

def hash (a : ByteArray) : Wide :=
  if a.size = 0 then hashEmpty
  else if a.size ≤ 3 then hashTiny a
  else if a.size ≤ 8 then hashShort a
  else if a.size ≤ 16 then hashMedium a
  else if a.size ≤ 128 then hashLong a
  else if a.size ≤ 240 then hashLonger a
  else hashBlocks a

end UpToDate.XXH3
