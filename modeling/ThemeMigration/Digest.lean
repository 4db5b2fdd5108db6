/-!
# Content digests

The 64-bit XXH3 digest with seed zero.  A migrated file counts as changed when the digest of its
new text differs from the digest of the text it was read as.  The digest has one rule for each
range of lengths: up to 16 bytes, up to 128, up to 240, and long inputs, which eight lanes absorb
stripe by stripe.  All arithmetic is modulo 2 to the 64th, words are read with the low byte first.
-/

namespace ThemeMigration.Digest

/-- The byte at an index, zero behind the end. -/
def byteAt (bytes : ByteArray) (i : Nat) : UInt8 := if h : i < bytes.size then bytes[i] else 0

/-- The word of `count` bytes from an index on, low byte first. -/
def wordAt (bytes : ByteArray) (i : Nat) : Nat → UInt64
  | 0 => 0
  | count + 1 => (byteAt bytes i).toUInt64 ||| (wordAt bytes (i + 1) count <<< 8)

def word32 (bytes : ByteArray) (i : Nat) : UInt64 := wordAt bytes i 4

def word64 (bytes : ByteArray) (i : Nat) : UInt64 := wordAt bytes i 8

/-- The 192 bytes that inputs are mixed with. -/
def secret : ByteArray := ⟨#[
  0xb8, 0xfe, 0x6c, 0x39, 0x23, 0xa4, 0x4b, 0xbe, 0x7c, 0x01, 0x81, 0x2c, 0xf7, 0x21, 0xad, 0x1c,
  0xde, 0xd4, 0x6d, 0xe9, 0x83, 0x90, 0x97, 0xdb, 0x72, 0x40, 0xa4, 0xa4, 0xb7, 0xb3, 0x67, 0x1f,
  0xcb, 0x79, 0xe6, 0x4e, 0xcc, 0xc0, 0xe5, 0x78, 0x82, 0x5a, 0xd0, 0x7d, 0xcc, 0xff, 0x72, 0x21,
  0xb8, 0x08, 0x46, 0x74, 0xf7, 0x43, 0x24, 0x8e, 0xe0, 0x35, 0x90, 0xe6, 0x81, 0x3a, 0x26, 0x4c,
  0x3c, 0x28, 0x52, 0xbb, 0x91, 0xc3, 0x00, 0xcb, 0x88, 0xd0, 0x65, 0x8b, 0x1b, 0x53, 0x2e, 0xa3,
  0x71, 0x64, 0x48, 0x97, 0xa2, 0x0d, 0xf9, 0x4e, 0x38, 0x19, 0xef, 0x46, 0xa9, 0xde, 0xac, 0xd8,
  0xa8, 0xfa, 0x76, 0x3f, 0xe3, 0x9c, 0x34, 0x3f, 0xf9, 0xdc, 0xbb, 0xc7, 0xc7, 0x0b, 0x4f, 0x1d,
  0x8a, 0x51, 0xe0, 0x4b, 0xcd, 0xb4, 0x59, 0x31, 0xc8, 0x9f, 0x7e, 0xc9, 0xd9, 0x78, 0x73, 0x64,
  0xea, 0xc5, 0xac, 0x83, 0x34, 0xd3, 0xeb, 0xc3, 0xc5, 0x81, 0xa0, 0xff, 0xfa, 0x13, 0x63, 0xeb,
  0x17, 0x0d, 0xdd, 0x51, 0xb7, 0xf0, 0xda, 0x49, 0xd3, 0x16, 0x55, 0x26, 0x29, 0xd4, 0x68, 0x9e,
  0x2b, 0x16, 0xbe, 0x58, 0x7d, 0x47, 0xa1, 0xfc, 0x8f, 0xf8, 0xb8, 0xd1, 0x7a, 0xd0, 0x31, 0xce,
  0x45, 0xcb, 0x3a, 0x8f, 0x95, 0x16, 0x04, 0x28, 0xaf, 0xd7, 0xfb, 0xca, 0xbb, 0x4b, 0x40, 0x7e]⟩

/-! ## Multipliers -/

def prime32₁ : UInt64 := 0x9E3779B1
def prime32₂ : UInt64 := 0x85EBCA77
def prime32₃ : UInt64 := 0xC2B2AE3D
def prime64₁ : UInt64 := 0x9E3779B185EBCA87
def prime64₂ : UInt64 := 0xC2B2AE3D27D4EB4F
def prime64₃ : UInt64 := 0x165667B19E3779F9
def prime64₄ : UInt64 := 0x85EBCA77C2B2AE63
def prime64₅ : UInt64 := 0x27D4EB2F165667C5
def multiplier₁ : UInt64 := 0x165667919E3779F9
def multiplier₂ : UInt64 := 0x9FB21C651E98DF25

/-! ## Mixing -/

/-- The two halves of the 128-bit product, joined by exclusive or. -/
def foldedProduct (a b : UInt64) : UInt64 :=
  let p := a.toNat * b.toNat
  UInt64.ofNat p ^^^ UInt64.ofNat (p / Nat.pow 2 64)

def rotate (x : UInt64) (n : UInt64) : UInt64 := (x <<< n) ||| (x >>> (64 - n))

def swapBytes (x : UInt64) : UInt64 :=
  (List.range 8).foldl
    (fun y i => (y <<< 8) ||| ((x >>> (UInt64.ofNat (8 * i))) &&& 0xFF)) 0

/-- The final mixing of short inputs. -/
def finishShort (h : UInt64) : UInt64 :=
  let h := (h ^^^ (h >>> 33)) * prime64₂
  let h := (h ^^^ (h >>> 29)) * prime64₃
  h ^^^ (h >>> 32)

/-- The final mixing of all other inputs. -/
def finish (h : UInt64) : UInt64 :=
  let h := (h ^^^ (h >>> 37)) * multiplier₁
  h ^^^ (h >>> 32)

/-- The final mixing of inputs of four to eight bytes. -/
def finishMiddle (h : UInt64) (length : Nat) : UInt64 :=
  let h := (h ^^^ rotate h 49 ^^^ rotate h 24) * multiplier₂
  let h := (h ^^^ ((h >>> 35) + UInt64.ofNat length)) * multiplier₂
  h ^^^ (h >>> 28)

/-- Sixteen bytes of the input mixed with sixteen bytes of the secret. -/
def mixAt (bytes : ByteArray) (i j : Nat) : UInt64 :=
  foldedProduct (word64 bytes i ^^^ word64 secret j)
    (word64 bytes (i + 8) ^^^ word64 secret (j + 8))

/-! ## Lengths up to 240 -/

def ofAtMost16 (bytes : ByteArray) : UInt64 :=
  let n := bytes.size
  if n > 8 then
    let low := word64 bytes 0 ^^^ (word64 secret 24 ^^^ word64 secret 32)
    let high := word64 bytes (n - 8) ^^^ (word64 secret 40 ^^^ word64 secret 48)
    finish (UInt64.ofNat n + swapBytes low + high + foldedProduct low high)
  else if n ≥ 4 then
    let joined := word32 bytes (n - 4) + (word32 bytes 0 <<< 32)
    finishMiddle (joined ^^^ (word64 secret 8 ^^^ word64 secret 16)) n
  else if n > 0 then
    let joined :=
      ((byteAt bytes 0).toUInt64 <<< 16) ||| ((byteAt bytes (n / 2)).toUInt64 <<< 24) |||
        (byteAt bytes (n - 1)).toUInt64 ||| (UInt64.ofNat n <<< 8)
    finishShort (joined ^^^ (word32 secret 0 ^^^ word32 secret 4))
  else finishShort (word64 secret 56 ^^^ word64 secret 64)

/-- Pairs of sixteen bytes from both ends of the input, outermost first. -/
def ofAtMost128 (bytes : ByteArray) : UInt64 :=
  let n := bytes.size
  let pairs := (n - 1) / 32 + 1
  finish <| (List.range pairs).foldl
    (fun h i => h + mixAt bytes (16 * i) (32 * i) + mixAt bytes (n - 16 * (i + 1)) (32 * i + 16))
    (UInt64.ofNat n * prime64₁)

def ofAtMost240 (bytes : ByteArray) : UInt64 :=
  let n := bytes.size
  let head := (List.range 8).foldl (fun h i => h + mixAt bytes (16 * i) (16 * i))
    (UInt64.ofNat n * prime64₁)
  let body := (List.range (n / 16 - 8)).foldl
    (fun h i => h + mixAt bytes (16 * (i + 8)) (16 * i + 3)) (finish head)
  finish (body + mixAt bytes (n - 16) 119)

/-! ## Long inputs -/

/-- Eight running sums. -/
structure Lanes where
  sums : Vector UInt64 8

namespace Lanes

def initial : Lanes :=
  ⟨#v[prime32₃, prime64₁, prime64₂, prime64₃, prime64₄, prime32₂, prime64₅, prime32₁]⟩

/-- Absorb a stripe of 64 bytes: each lane adds the word of its neighbour and the product of the
halves of its own keyed word. -/
def absorb (bytes : ByteArray) (i key : Nat) (lanes : Lanes) : Lanes :=
  ⟨Vector.ofFn fun (k : Fin 8) =>
    let low : UInt64 := 0xFFFFFFFF
    let keyed := word64 bytes (i + 8 * k.val) ^^^ word64 secret (key + 8 * k.val)
    let neighbour := if k.val % 2 = 0 then k.val + 1 else k.val - 1
    lanes.sums[k] + word64 bytes (i + 8 * neighbour) + (keyed &&& low) * (keyed >>> 32)⟩

/-- Absorb consecutive stripes; the secret moves on by eight bytes with each. -/
def absorbStripes (bytes : ByteArray) (i count : Nat) (lanes : Lanes) : Lanes :=
  (List.range count).foldl (fun l s => l.absorb bytes (i + 64 * s) (8 * s)) lanes

/-- Stir the sums behind a block of sixteen stripes. -/
def stir (lanes : Lanes) : Lanes :=
  ⟨Vector.ofFn fun (k : Fin 8) =>
    let x := lanes.sums[k]
    (x ^^^ (x >>> 47) ^^^ word64 secret (128 + 8 * k.val)) * prime32₁⟩

/-- The lanes joined in pairs. -/
def merge (lanes : Lanes) (start : UInt64) : UInt64 :=
  let pair (a b : UInt64) (key : Nat) : UInt64 :=
    foldedProduct (a ^^^ word64 secret key) (b ^^^ word64 secret (key + 8))
  finish (start + pair lanes.sums[0] lanes.sums[1] 11 + pair lanes.sums[2] lanes.sums[3] 27 +
    pair lanes.sums[4] lanes.sums[5] 43 + pair lanes.sums[6] lanes.sums[7] 59)

end Lanes

/-- Whole blocks of 1024 bytes, the stripes of the last block, and the last 64 bytes once more. -/
def ofLong (bytes : ByteArray) : UInt64 :=
  let n := bytes.size
  let blocks := (n - 1) / 1024
  let whole := (List.range blocks).foldl
    (fun l b => (l.absorbStripes bytes (1024 * b) 16).stir) Lanes.initial
  let rest := whole.absorbStripes bytes (1024 * blocks) ((n - 1 - 1024 * blocks) / 64)
  (rest.absorb bytes (n - 64) 121).merge (UInt64.ofNat n * prime64₁)

end ThemeMigration.Digest

namespace ThemeMigration

/-- The digest of a content. -/
def digest (bytes : ByteArray) : UInt64 :=
  if bytes.size ≤ 16 then Digest.ofAtMost16 bytes
  else if bytes.size ≤ 128 then Digest.ofAtMost128 bytes
  else if bytes.size ≤ 240 then Digest.ofAtMost240 bytes
  else Digest.ofLong bytes

/-- Whether a text differs from the one with the given digest. -/
def digestChanged (before : UInt64) (text : String) : Bool := digest text.toUTF8 != before

/-- A digest as sixteen hexadecimal digits. -/
def hexDigest (d : UInt64) : String :=
  let digits := Nat.toDigits 16 d.toNat
  String.ofList (List.replicate (16 - digits.length) '0' ++ digits)

end ThemeMigration
