import Meta1Core.Protocol.Asset

/-!
# Authorities (`authority.hpp`)
-/

namespace Meta1Core.Protocol

def committeeAccount : AccountId := 0

def tempAccount : AccountId := 4

structure Authority (Key Addr : Type) where
  weightThreshold : UInt32
  accountAuths : List (AccountId × UInt16)
  keyAuths : List (Key × UInt16)
  addressAuths : List (Addr × UInt16)
  deriving DecidableEq

def weight {α : Type} (entries : List (α × UInt16)) : Nat :=
  (entries.map fun entry => entry.2.toNat).sum

/-- `is_impossible`; the sum is a `uint64_t`. -/
def Authority.isImpossible {Key Addr : Type} (au : Authority Key Addr) : Bool :=
  (weight au.accountAuths + weight au.keyAuths + weight au.addressAuths) % 2 ^ 64
    < au.weightThreshold.toNat

end Meta1Core.Protocol
