/-
# Bounds and units

The greatest values of the unsigned integer types, and the nanoseconds of a second: durations are
counted in nanoseconds.
-/
import Mathlib.Algebra.Order.Ring.Nat

namespace P2pVpn.Lib

def u8Max : ℕ := 2 ^ 8 - 1

def u16Max : ℕ := 2 ^ 16 - 1

def u32Max : ℕ := 2 ^ 32 - 1

def u64Max : ℕ := 2 ^ 64 - 1

def nanosPerSecond : ℕ := 10 ^ 9

end P2pVpn.Lib
