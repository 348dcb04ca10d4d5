import CoinSpend.Proofs.Commitment

/-!
# The signed copy as a stream of fields

What is hashed for a signature can be written in one pass over the transaction,
field by field, without ever making a copy of it: every input and every output
contributes bytes that depend on its place and on the place that is signed.
-/

namespace CoinSpend

namespace Transaction

section Streams

variable {α β : Type} {contribution : Nat → α → Bytes} {place : Nat}
  {items : List α}

end Streams

section Inputs

variable {type : HashType} {scriptCode : Script} {index place : Nat}

end Inputs

section Outputs

variable {scope : OutputScope} {index place : Nat}

end Outputs

end Transaction

end CoinSpend
