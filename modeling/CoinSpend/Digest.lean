import CoinSpend.BlockHash

/-!
# Digests

SHA-256, with the authentication code HMAC that is built on it, and RIPEMD-160.

RIPEMD-160 runs two lines of eighty steps side by side over the same block.
Each line has its own order of words, rotation amounts and constants, and the
right line uses the five mixing functions in the opposite order.

Transactions and messages are hashed twice with SHA-256.  Keys are named by the
RIPEMD-160 digest of their SHA-256 digest.
-/

namespace CoinSpend

namespace Sha256

/-- The eight working words of the compression function. -/
structure State where
  a : UInt32
  b : UInt32
  c : UInt32
  d : UInt32
  e : UInt32
  f : UInt32
  g : UInt32
  h : UInt32

def initial : State :=
  ⟨0x6a09e667, 0xbb67ae85, 0x3c6ef372, 0xa54ff53a,
    0x510e527f, 0x9b05688c, 0x1f83d9ab, 0x5be0cd19⟩

/-- The first 32 bits of the fractional parts of the cube roots of the first
64 primes. -/
def roundConstants : List UInt32 := [
  0x428a2f98, 0x71374491, 0xb5c0fbcf, 0xe9b5dba5,
  0x3956c25b, 0x59f111f1, 0x923f82a4, 0xab1c5ed5,
  0xd807aa98, 0x12835b01, 0x243185be, 0x550c7dc3,
  0x72be5d74, 0x80deb1fe, 0x9bdc06a7, 0xc19bf174,
  0xe49b69c1, 0xefbe4786, 0x0fc19dc6, 0x240ca1cc,
  0x2de92c6f, 0x4a7484aa, 0x5cb0a9dc, 0x76f988da,
  0x983e5152, 0xa831c66d, 0xb00327c8, 0xbf597fc7,
  0xc6e00bf3, 0xd5a79147, 0x06ca6351, 0x14292967,
  0x27b70a85, 0x2e1b2138, 0x4d2c6dfc, 0x53380d13,
  0x650a7354, 0x766a0abb, 0x81c2c92e, 0x92722c85,
  0xa2bfe8a1, 0xa81a664b, 0xc24b8b70, 0xc76c51a3,
  0xd192e819, 0xd6990624, 0xf40e3585, 0x106aa070,
  0x19a4c116, 0x1e376c08, 0x2748774c, 0x34b0bcb5,
  0x391c0cb3, 0x4ed8aa4a, 0x5b9cca4f, 0x682e6ff3,
  0x748f82ee, 0x78a5636f, 0x84c87814, 0x8cc70208,
  0x90befffa, 0xa4506ceb, 0xbef9a3f7, 0xc67178f2]

/-- Prepend `count` schedule words, the latest word first. -/
def extendSchedule : (count : Nat) → List UInt32 → List UInt32
  | 0, recent => recent
  | count + 1, recent =>
      let old := recent.getD 14 0
      let late := recent.getD 1 0
      let low := rotateRight old 7 ^^^ rotateRight old 18 ^^^ old >>> 3
      let high := rotateRight late 17 ^^^ rotateRight late 19 ^^^ late >>> 10
      let next := recent.getD 15 0 + low + recent.getD 6 0 + high
      extendSchedule count (next :: recent)

/-- The 64 schedule words of a block of sixteen words. -/
def schedule (block : List UInt32) : List UInt32 :=
  (extendSchedule 48 block.reverse).reverse

def round (state : State) (constant word : UInt32) : State :=
  let mixed :=
    rotateRight state.e 6 ^^^ rotateRight state.e 11 ^^^ rotateRight state.e 25
  let choice := (state.e &&& state.f) ^^^ (~~~state.e &&& state.g)
  let first := state.h + mixed + choice + constant + word
  let spread :=
    rotateRight state.a 2 ^^^ rotateRight state.a 13 ^^^ rotateRight state.a 22
  let majority :=
    (state.a &&& state.b) ^^^ (state.a &&& state.c) ^^^ (state.b &&& state.c)
  ⟨first + spread + majority, state.a, state.b, state.c,
    state.d + first, state.e, state.f, state.g⟩

def rounds : State → List UInt32 → List UInt32 → State
  | state, constant :: constants, word :: words =>
      rounds (round state constant word) constants words
  | state, _, _ => state

def compress (state : State) (block : List UInt32) : State :=
  let mixed := rounds state roundConstants (schedule block)
  ⟨state.a + mixed.a, state.b + mixed.b, state.c + mixed.c,
    state.d + mixed.d, state.e + mixed.e, state.f + mixed.f,
    state.g + mixed.g, state.h + mixed.h⟩

def State.toBytes (state : State) : Bytes :=
  [state.a, state.b, state.c, state.d, state.e, state.f, state.g,
    state.h].flatMap fun word => bigEndian 4 word.toNat

theorem State.length_toBytes (state : State) : state.toBytes.length = 32 := by
  simp [State.toBytes]

/-- The SHA-256 digest of a byte string. -/
def digest (message : Bytes) : FixedBytes 32 :=
  let final := BlockHash.run .bigEndian compress initial message
  ⟨final.toBytes, final.length_toBytes⟩

/-- A key brought to the length of one block. -/
def hmacKey (key : Bytes) : Bytes :=
  let short :=
    if key.length ≤ BlockHash.blockSize then key else (digest key).toBytes
  short ++ List.replicate (BlockHash.blockSize - short.length) 0

/-- The HMAC of a message under a key. -/
def hmac (key message : Bytes) : FixedBytes 32 :=
  let inner := (hmacKey key).map (· ^^^ 0x36)
  let outer := (hmacKey key).map (· ^^^ 0x5c)
  digest (outer ++ (digest (inner ++ message)).toBytes)

end Sha256

namespace Ripemd160

/-- The five chaining words. -/
structure State where
  a : UInt32
  b : UInt32
  c : UInt32
  d : UInt32
  e : UInt32

def initial : State :=
  ⟨0x67452301, 0xefcdab89, 0x98badcfe, 0x10325476, 0xc3d2e1f0⟩

/-- The mixing function of a group of sixteen steps. -/
def mix : (group : Nat) → UInt32 → UInt32 → UInt32 → UInt32
  | 0, x, y, z => x ^^^ y ^^^ z
  | 1, x, y, z => (x &&& y) ||| (~~~x &&& z)
  | 2, x, y, z => (x ||| ~~~y) ^^^ z
  | 3, x, y, z => (x &&& z) ||| (y &&& ~~~z)
  | _, x, y, z => x ^^^ (y ||| ~~~z)

/-- Sixteen steps that share a mixing function and a constant. -/
structure StepGroup where
  mixing : Nat
  constant : UInt32
  /-- For each step, the position of its word in the block and its rotation. -/
  steps : List (Nat × UInt32)

def leftLine : List StepGroup := [
  ⟨0, 0x00000000,
    [(0, 11), (1, 14), (2, 15), (3, 12), (4, 5), (5, 8), (6, 7), (7, 9),
      (8, 11), (9, 13), (10, 14), (11, 15), (12, 6), (13, 7), (14, 9),
      (15, 8)]⟩,
  ⟨1, 0x5a827999,
    [(7, 7), (4, 6), (13, 8), (1, 13), (10, 11), (6, 9), (15, 7), (3, 15),
      (12, 7), (0, 12), (9, 15), (5, 9), (2, 11), (14, 7), (11, 13),
      (8, 12)]⟩,
  ⟨2, 0x6ed9eba1,
    [(3, 11), (10, 13), (14, 6), (4, 7), (9, 14), (15, 9), (8, 13), (1, 15),
      (2, 14), (7, 8), (0, 13), (6, 6), (13, 5), (11, 12), (5, 7),
      (12, 5)]⟩,
  ⟨3, 0x8f1bbcdc,
    [(1, 11), (9, 12), (11, 14), (10, 15), (0, 14), (8, 15), (12, 9), (4, 8),
      (13, 9), (3, 14), (7, 5), (15, 6), (14, 8), (5, 6), (6, 5),
      (2, 12)]⟩,
  ⟨4, 0xa953fd4e,
    [(4, 9), (0, 15), (5, 5), (9, 11), (7, 6), (12, 8), (2, 13), (10, 12),
      (14, 5), (1, 12), (3, 13), (8, 14), (11, 11), (6, 8), (15, 5),
      (13, 6)]⟩]

def rightLine : List StepGroup := [
  ⟨4, 0x50a28be6,
    [(5, 8), (14, 9), (7, 9), (0, 11), (9, 13), (2, 15), (11, 15), (4, 5),
      (13, 7), (6, 7), (15, 8), (8, 11), (1, 14), (10, 14), (3, 12),
      (12, 6)]⟩,
  ⟨3, 0x5c4dd124,
    [(6, 9), (11, 13), (3, 15), (7, 7), (0, 12), (13, 8), (5, 9), (10, 11),
      (14, 7), (15, 7), (8, 12), (12, 7), (4, 6), (9, 15), (1, 13),
      (2, 11)]⟩,
  ⟨2, 0x6d703ef3,
    [(15, 9), (5, 7), (1, 15), (3, 11), (7, 8), (14, 6), (6, 6), (9, 14),
      (11, 12), (8, 13), (12, 5), (2, 14), (10, 13), (0, 13), (4, 7),
      (13, 5)]⟩,
  ⟨1, 0x7a6d76e9,
    [(8, 15), (6, 5), (4, 8), (1, 11), (3, 14), (11, 14), (15, 6), (0, 14),
      (5, 6), (12, 9), (2, 12), (13, 9), (9, 12), (7, 5), (10, 15),
      (14, 8)]⟩,
  ⟨0, 0x00000000,
    [(12, 8), (15, 5), (10, 12), (4, 9), (1, 12), (5, 5), (8, 14), (7, 6),
      (6, 8), (2, 13), (13, 6), (14, 5), (0, 15), (3, 13), (9, 11),
      (11, 11)]⟩]

def step (mixing : Nat) (constant : UInt32) (block : List UInt32)
    (state : State) (position : Nat) (rotation : UInt32) : State :=
  let sum :=
    state.a + mix mixing state.b state.c state.d + block.getD position 0 +
      constant
  ⟨state.e, rotateLeft sum rotation + state.e, state.b,
    rotateLeft state.c 10, state.d⟩

def runGroup (block : List UInt32) (state : State) (group : StepGroup) :
    State :=
  group.steps.foldl
    (fun current next =>
      step group.mixing group.constant block current next.1 next.2)
    state

def compress (state : State) (block : List UInt32) : State :=
  let left := leftLine.foldl (runGroup block) state
  let right := rightLine.foldl (runGroup block) state
  ⟨state.b + left.c + right.d, state.c + left.d + right.e,
    state.d + left.e + right.a, state.e + left.a + right.b,
    state.a + left.b + right.c⟩

def State.toBytes (state : State) : Bytes :=
  [state.a, state.b, state.c, state.d, state.e].flatMap fun word =>
    littleEndian 4 word.toNat

theorem State.length_toBytes (state : State) : state.toBytes.length = 20 := by
  simp [State.toBytes]

/-- The RIPEMD-160 digest of a byte string. -/
def digest (message : Bytes) : FixedBytes 20 :=
  let final := BlockHash.run .littleEndian compress initial message
  ⟨final.toBytes, final.length_toBytes⟩

end Ripemd160

/-- A 32-byte digest. -/
abbrev Digest := FixedBytes 32

/-- The 20-byte name of a public key. -/
abbrev KeyHash := FixedBytes 20

/-- SHA-256 applied twice. -/
def doubleSha256 (message : Bytes) : Digest :=
  Sha256.digest (Sha256.digest message).toBytes

/-- RIPEMD-160 of SHA-256. -/
def hash160 (message : Bytes) : KeyHash :=
  Ripemd160.digest (Sha256.digest message).toBytes

/-- The first four bytes of the double digest, appended to guard a text form
against mistyping. -/
def checksum (message : Bytes) : Bytes :=
  (doubleSha256 message).toBytes.take 4

@[simp]
theorem checksum_length (message : Bytes) : (checksum message).length = 4 := by
  simp [checksum, (doubleSha256 message).length_toBytes]

end CoinSpend
