import CoinSpend.Bytes

/-!
# Iterated hashing of padded blocks

SHA-256 and RIPEMD-160 share their outer structure.  The message is followed by
one `1` bit, zeros and its bit length, so that it fills blocks of sixteen 32-bit
words, and a compression function absorbs the blocks one after another.  They
differ in the byte order of words and length.
-/

namespace CoinSpend

namespace BlockHash

/-- The order of the bytes in a word and in the length field. -/
inductive WordOrder
  | bigEndian
  | littleEndian
  deriving DecidableEq

/-- A number as a field of `width` bytes in the given order. -/
def WordOrder.field : WordOrder → (width number : Nat) → Bytes
  | .bigEndian => CoinSpend.bigEndian
  | .littleEndian => CoinSpend.littleEndian

/-- The number in a field of the given order. -/
def WordOrder.value : WordOrder → Bytes → Nat
  | .bigEndian => bigEndianValue
  | .littleEndian => littleEndianValue

/-- The number of bytes in a block. -/
def blockSize : Nat := 64

/-- The message with the padding that completes its last block. -/
def padded (order : WordOrder) (message : Bytes) : Bytes :=
  let zeros := (119 - message.length % blockSize) % blockSize
  message ++ 0x80 :: (List.replicate zeros 0 ++
    order.field 8 (8 * message.length))

/-- The 32-bit words of a byte string whose length is a multiple of four. -/
def words (order : WordOrder) : Bytes → List UInt32
  | first :: second :: third :: fourth :: rest =>
      UInt32.ofNat (order.value [first, second, third, fourth]) ::
        words order rest
  | _ => []

/-- Absorb `count` blocks of sixteen words. -/
def absorb {State : Type} (compress : State → List UInt32 → State) :
    (count : Nat) → List UInt32 → State → State
  | 0, _, state => state
  | count + 1, input, state =>
      absorb compress count (input.drop 16) (compress state (input.take 16))

/-- The state after every block of the padded message. -/
def run {State : Type} (order : WordOrder)
    (compress : State → List UInt32 → State) (initial : State)
    (message : Bytes) : State :=
  let bytes := padded order message
  absorb compress (bytes.length / blockSize) (words order bytes) initial

end BlockHash

/-- Rotate a word towards its most significant end. -/
def rotateLeft (word amount : UInt32) : UInt32 :=
  word <<< amount ||| word >>> (32 - amount)

/-- Rotate a word towards its least significant end. -/
def rotateRight (word amount : UInt32) : UInt32 :=
  word >>> amount ||| word <<< (32 - amount)

end CoinSpend
