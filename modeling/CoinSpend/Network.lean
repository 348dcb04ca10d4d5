/-!
# Networks

Keys and addresses carry a version byte that tells the network they are for.
-/

namespace CoinSpend

inductive Network
  | mainnet
  | testnet
  deriving DecidableEq

namespace Network

/-- The name in messages. -/
def name : Network → String
  | .mainnet => "Mainnet"
  | .testnet => "Testnet"

/-- The version byte of a key hash address. -/
def addressVersion : Network → UInt8
  | .mainnet => 0x00
  | .testnet => 0x6f

/-- The version byte of an exported private key. -/
def secretVersion : Network → UInt8
  | .mainnet => 0x80
  | .testnet => 0xef

def ofAddressVersion? (version : UInt8) : Option Network :=
  if version = addressVersion .mainnet then some .mainnet
  else if version = addressVersion .testnet then some .testnet
  else none

def ofSecretVersion? (version : UInt8) : Option Network :=
  if version = secretVersion .mainnet then some .mainnet
  else if version = secretVersion .testnet then some .testnet
  else none

theorem ofAddressVersion?_eq_some_iff {version : UInt8} {network : Network} :
    ofAddressVersion? version = some network ↔
      version = network.addressVersion := by
  constructor
  · unfold ofAddressVersion?
    repeat' split
    all_goals simp_all
  · rintro rfl
    cases network <;> rfl

theorem ofSecretVersion?_eq_some_iff {version : UInt8} {network : Network} :
    ofSecretVersion? version = some network ↔
      version = network.secretVersion := by
  constructor
  · unfold ofSecretVersion?
    repeat' split
    all_goals simp_all
  · rintro rfl
    cases network <;> rfl

end Network

end CoinSpend
