import DbBench.Construction.ShardedDB
import Mathlib.Data.Nat.Digits.Lemmas

namespace DbBench

/-- This function reads one decimal digit back. -/
def digitValue (byte : UInt8) : Nat := (byte - 48).toNat

theorem digitValue_digit (digit : Nat) (small : digit < 10) :
    digitValue (48 + UInt8.ofNat digit) = digit := by
  interval_cases digit <;> rfl

/-- The digits of a rendered number give the number back. -/
theorem ofDigits_toString (n : Nat) :
    Nat.ofDigits 10 ((toString n).map digitValue).reverse = n := by
  by_cases zero : n = 0
  · subst zero
    rfl
  · have digits : (Nat.digits 10 n).map (digitValue ∘ fun digit => 48 + UInt8.ofNat digit) =
        Nat.digits 10 n := by
      conv_rhs => rw [← List.map_id (Nat.digits 10 n)]
      apply List.map_congr_left
      intro digit member
      exact digitValue_digit digit (Nat.digits_lt_base (by decide) member)
    rw [toString, if_neg zero, List.map_map, List.map_reverse, List.reverse_reverse, digits,
      Nat.ofDigits_digits]

/-- Different numbers have different decimal texts. -/
theorem toString_injective : Function.Injective toString := by
  intro first second equal
  rw [← ofDigits_toString first, equal, ofDigits_toString second]

/-- Different shards of one database have different paths. -/
theorem shardPath_injective (dbname : Bytes) : Function.Injective (shardPath dbname) := by
  intro first second equal
  exact toString_injective (List.append_cancel_left equal)

end DbBench
