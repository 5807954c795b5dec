import RubyOlm.CryptoAlgorithms.Words
import RubyOlm.Theory.Sha2

/-!
# SHA-256

`sha256.c` of the `crypto-algorithms` library: a context that is fed byte by byte, and a block that is hashed whenever 64
of them are there.
-/

namespace RubyOlm

/-! ### Macros and constants -/

def rotright (a b : UInt32) : UInt32 := (a >>> b) ||| (a <<< (32 - b))

/-- `CH`. -/
def choose (x y z : UInt32) : UInt32 := (x &&& y) ^^^ (~~~x &&& z)

/-- `MAJ`. -/
def majority (x y z : UInt32) : UInt32 := (x &&& y) ^^^ (x &&& z) ^^^ (y &&& z)

def ep0 (x : UInt32) : UInt32 := rotright x 2 ^^^ rotright x 13 ^^^ rotright x 22

def ep1 (x : UInt32) : UInt32 := rotright x 6 ^^^ rotright x 11 ^^^ rotright x 25

def sig0 (x : UInt32) : UInt32 := rotright x 7 ^^^ rotright x 18 ^^^ (x >>> 3)

def sig1 (x : UInt32) : UInt32 := rotright x 17 ^^^ rotright x 19 ^^^ (x >>> 10)

/-- `k[64]`. -/
def sha256K : List UInt32 := [
  0x428a2f98, 0x71374491, 0xb5c0fbcf, 0xe9b5dba5, 0x3956c25b, 0x59f111f1, 0x923f82a4, 0xab1c5ed5,
  0xd807aa98, 0x12835b01, 0x243185be, 0x550c7dc3, 0x72be5d74, 0x80deb1fe, 0x9bdc06a7, 0xc19bf174,
  0xe49b69c1, 0xefbe4786, 0x0fc19dc6, 0x240ca1cc, 0x2de92c6f, 0x4a7484aa, 0x5cb0a9dc, 0x76f988da,
  0x983e5152, 0xa831c66d, 0xb00327c8, 0xbf597fc7, 0xc6e00bf3, 0xd5a79147, 0x06ca6351, 0x14292967,
  0x27b70a85, 0x2e1b2138, 0x4d2c6dfc, 0x53380d13, 0x650a7354, 0x766a0abb, 0x81c2c92e, 0x92722c85,
  0xa2bfe8a1, 0xa81a664b, 0xc24b8b70, 0xc76c51a3, 0xd192e819, 0xd6990624, 0xf40e3585, 0x106aa070,
  0x19a4c116, 0x1e376c08, 0x2748774c, 0x34b0bcb5, 0x391c0cb3, 0x4ed8aa4a, 0x5b9cca4f, 0x682e6ff3,
  0x748f82ee, 0x78a5636f, 0x84c87814, 0x8cc70208, 0x90befffa, 0xa4506ceb, 0xbef9a3f7, 0xc67178f2]

/-! ### The context -/

/-- `SHA256_CTX`. The words `state[0]` to `state[7]` are the fields of the state. -/
structure Sha256Ctx where
  data : Block 64
  datalen : UInt32
  bitlen : UInt64
  state : Sha2.State

namespace Block

variable {n : Nat}

/-- `data[i] = byte`. -/
def set (data : Block n) (i : Nat) (byte : UInt8) : Block n :=
  ⟨data.val.set i byte, List.length_set.trans data.property⟩

/-- A loop that stores bytes from `i` on, or `memset`. -/
def setAll (data : Block n) (i : Nat) : (bytes : Bytes) → Block n
  | [] => data
  | byte :: bytes => setAll (data.set i byte) (i + 1) bytes

end Block

/-! ### The hash of a block -/

/-- A turn of the first loop over `m[64]`. -/
def loadedWord (data : Bytes) (i : Nat) : UInt32 :=
  word (data.getD (4 * i) 0) (data.getD (4 * i + 1) 0) (data.getD (4 * i + 2) 0) (data.getD (4 * i + 3) 0)

/-- A turn of the second. -/
def extendedWord (m : List UInt32) (i : Nat) : UInt32 :=
  sig1 (m.getD (i - 2) 0) + m.getD (i - 7) 0 + sig0 (m.getD (i - 15) 0) + m.getD (i - 16) 0

def messageSchedule (m : List UInt32) (data : Bytes) : List UInt32 :=
  storeWords extendedWord (storeWords (fun _ i => loadedWord data i) m 0 16) 16 48

/-- A turn of the loop over the variables `a` to `h`. -/
def sha256Turn (m : List UInt32) (s : Sha2.State) (i : Nat) : Sha2.State :=
  let t1 := s.h + ep1 s.e + choose s.e s.f s.g + sha256K.getD i 0 + m.getD i 0
  let t2 := ep0 s.a + majority s.a s.b s.c
  { h := s.g, g := s.f, f := s.e, e := s.d + t1, d := s.c, c := s.b, b := s.a, a := t1 + t2 }

/-- `sha256_transform`. Whatever `m` holds is stored over before it is read. -/
def sha256Transform (ctx : Sha256Ctx) : Sha256Ctx :=
  let m := messageSchedule (List.replicate 64 0) ctx.data.val
  let s := (List.range 64).foldl (sha256Turn m) ctx.state
  { ctx with state :=
      ⟨ctx.state.a + s.a, ctx.state.b + s.b, ctx.state.c + s.c, ctx.state.d + s.d, ctx.state.e + s.e,
        ctx.state.f + s.f, ctx.state.g + s.g, ctx.state.h + s.h⟩ }

/-! ### Feeding the context -/

/-- `sha256_init`, which leaves `data` as it is. -/
def sha256Init (ctx : Sha256Ctx) : Sha256Ctx where
  data := ctx.data
  datalen := 0
  bitlen := 0
  state := ⟨0x6a09e667, 0xbb67ae85, 0x3c6ef372, 0xa54ff53a, 0x510e527f, 0x9b05688c, 0x1f83d9ab, 0x5be0cd19⟩

/-- The body of the loop of `sha256_update`. -/
def sha256Byte (ctx : Sha256Ctx) (byte : UInt8) : Sha256Ctx :=
  let ctx := { ctx with data := ctx.data.set ctx.datalen.toNat byte, datalen := ctx.datalen + 1 }
  if ctx.datalen = 64 then
    let ctx := sha256Transform ctx
    { ctx with bitlen := ctx.bitlen + 512, datalen := 0 }
  else ctx

/-- `sha256_update`, for so many turns at most. The counter is a `WORD`, and `len` a `size_t`. -/
def sha256Update (ctx : Sha256Ctx) (data : Bytes) : (turns : Nat) → (i : UInt32) → Option Sha256Ctx
  | 0, _ => none
  | turns + 1, i =>
    if i.toNat < data.length then sha256Update (sha256Byte ctx (data.getD i.toNat 0)) data turns (i + 1)
    else some ctx

/-- The eight bytes at the end of the last block. -/
def bitlenBytes (bitlen : UInt64) : Bytes :=
  [(bitlen >>> 56).toUInt8, (bitlen >>> 48).toUInt8, (bitlen >>> 40).toUInt8, (bitlen >>> 32).toUInt8,
    (bitlen >>> 24).toUInt8, (bitlen >>> 16).toUInt8, (bitlen >>> 8).toUInt8, bitlen.toUInt8]

/-- `sha256_final`. -/
def sha256Final (ctx : Sha256Ctx) : Sha256Ctx × Block 32 :=
  let i := ctx.datalen.toNat
  let padded :=
    if ctx.datalen < 56 then
      { ctx with data := (ctx.data.set i 0x80).setAll (i + 1) (List.replicate (56 - (i + 1)) 0) }
    else
      let full := sha256Transform
        { ctx with data := (ctx.data.set i 0x80).setAll (i + 1) (List.replicate (64 - (i + 1)) 0) }
      { full with data := full.data.setAll 0 (List.replicate 56 0) }
  let bitlen := padded.bitlen + (padded.datalen * 8).toUInt64
  let last := sha256Transform { padded with bitlen, data := padded.data.setAll 56 (bitlenBytes bitlen) }
  let s := last.state
  (last, ⟨bigEndian s.a ++ bigEndian s.b ++ bigEndian s.c ++ bigEndian s.d ++ bigEndian s.e ++ bigEndian s.f ++
    bigEndian s.g ++ bigEndian s.h, rfl⟩)

end RubyOlm
