import Mathlib.Algebra.GroupWithZero.Nat
import Mathlib.Algebra.Ring.Int.Defs
import Mathlib.Data.List.Basic

/-!
# Foundations/Digest — SHA-256 on a few known inputs

The development takes SHA-256 as a parameter.  Where a concrete run needs one, `knownSha256` gives
the true digests of the short inputs those runs use.
-/

namespace Foundations

abbrev Bytes := List UInt8

/-- The SHA-256 digests of the empty string, `a` and `b` in hexadecimal. -/
def knownSha256 (data : Bytes) : String :=
  if data = [] then "e3b0c44298fc1c149afbf4c8996fb92427ae41e4649b934ca495991b7852b855"
  else if data = [0x61] then "ca978112ca1bbdcafac231b39a23dc4da786eff8147c4e72b9807785afee48bb"
  else if data = [0x62] then "3e23e8160039594a33894f6564e1b1348bbd7a0088d42c4acb73eeaed59c009d"
  else "0000000000000000000000000000000000000000000000000000000000000000"

theorem length_knownSha256 (data : Bytes) : (knownSha256 data).length = 64 := by
  simp only [knownSha256]
  split
  · decide
  · split
    · decide
    · split <;> decide

end Foundations
