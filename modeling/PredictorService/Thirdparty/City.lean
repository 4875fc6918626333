/-
  PredictorService.Thirdparty.City — `CityHash64WithSeed` as vendored in
  thirdparty/hash/smhasher/src/City.cpp, on a little-endian machine.

  The router's theorems take the hash as a parameter and assume only what they need of it
  on the keys in play; this is the function they are instantiated with. The bytes are a
  list, and a read at an offset is a drop.
-/

namespace PredictorService.Thirdparty

def k0 : UInt64 := 0xc3a5c85c97cb3127
def k1 : UInt64 := 0xb492b66fbe98f273
def k2 : UInt64 := 0x9ae16a3b2f90404f
def k3 : UInt64 := 0xc949d7c7509e6557

/-- The first `n` bytes from offset `i`, least significant first. -/
def fetch (s : List UInt8) (i n : Nat) : UInt64 :=
  ((s.drop i).take n).foldr (fun b acc => acc * 256 + b.toUInt64) 0

def fetch64 (s : List UInt8) (i : Nat) : UInt64 := fetch s i 8
def fetch32 (s : List UInt8) (i : Nat) : UInt64 := fetch s i 4

def rotate (val shift : UInt64) : UInt64 := if shift = 0 then val else (val >>> shift) ||| (val <<< (64 - shift))

def shiftMix (val : UInt64) : UInt64 := val ^^^ (val >>> 47)

/-- `Hash128to64` of the pair. -/
def hashLen16 (u v : UInt64) : UInt64 :=
  let kMul : UInt64 := 0x9ddfea08eb382d69
  let a := shiftMix ((u ^^^ v) * kMul)
  shiftMix ((v ^^^ a) * kMul) * kMul

def hashLen0to16 (s : List UInt8) : UInt64 :=
  let len := s.length
  if len > 8 then
    let a := fetch64 s 0
    let b := fetch64 s (len - 8)
    hashLen16 a (rotate (b + len.toUInt64) len.toUInt64) ^^^ b
  else if len ≥ 4 then
    hashLen16 (len.toUInt64 + (fetch32 s 0 <<< 3)) (fetch32 s (len - 4))
  else if len > 0 then
    let a := fetch s 0 1
    let b := fetch s (len / 2) 1
    let c := fetch s (len - 1) 1
    let y := a + (b <<< 8)
    let z := len.toUInt64 + (c <<< 2)
    shiftMix ((y * k2) ^^^ (z * k3)) * k2
  else k2

def hashLen17to32 (s : List UInt8) : UInt64 :=
  let len := s.length
  let a := fetch64 s 0 * k1
  let b := fetch64 s 8
  let c := fetch64 s (len - 8) * k2
  let d := fetch64 s (len - 16) * k0
  hashLen16 (rotate (a - b) 43 + rotate c 30 + d) (a + rotate (b ^^^ k3) 20 - c + len.toUInt64)

def weakHashLen32WithSeeds (s : List UInt8) (i : Nat) (a b : UInt64) : UInt64 × UInt64 :=
  let w := fetch64 s i
  let x := fetch64 s (i + 8)
  let y := fetch64 s (i + 16)
  let z := fetch64 s (i + 24)
  let a := a + w
  let b := rotate (b + a + z) 21
  let c := a
  let a := a + x + y
  let b := b + rotate a 44
  (a + z, b + c)

def hashLen33to64 (s : List UInt8) : UInt64 :=
  let len := s.length
  let z := fetch64 s 24
  let a := fetch64 s 0 + (len.toUInt64 + fetch64 s (len - 16)) * k0
  let b := rotate (a + z) 52
  let c := rotate a 37
  let a := a + fetch64 s 8
  let c := c + rotate a 7
  let a := a + fetch64 s 16
  let vf := a + z
  let vs := b + rotate a 31 + c
  let a := fetch64 s 16 + fetch64 s (len - 32)
  let z := fetch64 s (len - 8)
  let b := rotate (a + z) 52
  let c := rotate a 37
  let a := a + fetch64 s (len - 24)
  let c := c + rotate a 7
  let a := a + fetch64 s (len - 16)
  let wf := a + z
  let ws := b + rotate a 31 + c
  let r := shiftMix ((vf + ws) * k2 + (wf + vs) * k0)
  shiftMix (r * k0 + vs) * k2

/-- The 56 bytes of state of the long hash. -/
structure LongState where
  x : UInt64
  y : UInt64
  z : UInt64
  v : UInt64 × UInt64
  w : UInt64 × UInt64

/-- One 64 byte chunk at offset `i`. -/
def longChunk (s : List UInt8) (t : LongState) (i : Nat) : LongState :=
  let x := rotate (t.x + t.y + t.v.1 + fetch64 s (i + 8)) 37 * k1
  let y := rotate (t.y + t.v.2 + fetch64 s (i + 48)) 42 * k1
  let x := x ^^^ t.w.2
  let y := y + t.v.1 + fetch64 s (i + 40)
  let z := rotate (t.z + t.w.1) 33 * k1
  let v := weakHashLen32WithSeeds s i (t.v.2 * k1) (x + t.w.1)
  let w := weakHashLen32WithSeeds s (i + 32) (z + t.w.2) (y + fetch64 s (i + 16))
  ⟨z, y, x, v, w⟩

def hashLenOver64 (s : List UInt8) : UInt64 :=
  let len := s.length
  let x := fetch64 s (len - 40)
  let y := fetch64 s (len - 16) + fetch64 s (len - 56)
  let z := hashLen16 (fetch64 s (len - 48) + len.toUInt64) (fetch64 s (len - 24))
  let v := weakHashLen32WithSeeds s (len - 64) len.toUInt64 z
  let w := weakHashLen32WithSeeds s (len - 32) (y + k1) x
  let x := x * k1 + fetch64 s 0
  -- the length rounded down to whole chunks, the last byte never opening one
  let t := ((List.range ((len - 1) / 64)).map (64 * ·)).foldl (longChunk s) ⟨x, y, z, v, w⟩
  hashLen16 (hashLen16 t.v.1 t.w.1 + shiftMix t.y * k1 + t.z) (hashLen16 t.v.2 t.w.2 + t.x)

def cityHash64 (s : List UInt8) : UInt64 :=
  if s.length ≤ 16 then hashLen0to16 s
  else if s.length ≤ 32 then hashLen17to32 s
  else if s.length ≤ 64 then hashLen33to64 s
  else hashLenOver64 s

/-- `CityHash64WithSeed` of a string's bytes. -/
def cityHash64WithSeed (s : String) (seed : UInt64) : UInt64 := hashLen16 (cityHash64 s.toUTF8.toList - k2) seed

end PredictorService.Thirdparty
