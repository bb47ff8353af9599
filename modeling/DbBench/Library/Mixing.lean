import Mathlib.SetTheory.Cardinal.Finite
import Mathlib.Data.Fintype.Vector

/-
This library states which steps of a 32-bit hash lose nothing, and counts what a step that is a
bijection in one argument sends to each class.
-/

namespace Mixing

/-- Multiplication by a word with an inverse loses nothing. -/
theorem multiply_injective {multiplier inverse : UInt32} (unit : multiplier * inverse = 1) :
    Function.Injective fun word : UInt32 => word * multiplier := by
  intro first second equal
  have restored := congrArg (fun word => word * inverse) equal
  simpa only [UInt32.mul_assoc, unit, UInt32.mul_one] using restored

/-- A xor with the upper half of the word undoes itself. -/
theorem xorShift_restores {width : Nat} (word : BitVec width) {shift : Nat}
    (far : width ≤ 2 * shift) :
    (word ^^^ word >>> shift) ^^^ (word ^^^ word >>> shift) >>> shift = word := by
  apply BitVec.eq_of_getLsbD_eq
  intro i inside
  simp only [BitVec.getLsbD_xor, BitVec.getLsbD_ushiftRight]
  have above : word.getLsbD (shift + (shift + i)) = false := by
    apply BitVec.getLsbD_of_ge
    omega
  simp [above]

/-- A xor with a shift by at least half of the word loses nothing. -/
theorem xorShift_injective {shift : UInt32} (far : 16 ≤ shift.toNat) (within : shift.toNat < 32) :
    Function.Injective fun word : UInt32 => word ^^^ word >>> shift := by
  intro first second equal
  apply UInt32.toBitVec_inj.mp
  have bits := congrArg UInt32.toBitVec equal
  have amount : shift.toBitVec % 32 = shift.toBitVec := by
    apply BitVec.eq_of_toNat_eq
    simp [Nat.mod_eq_of_lt within]
  simp only [UInt32.toBitVec_xor, UInt32.toBitVec_shiftRight, amount, BitVec.ushiftRight_eq',
    UInt32.toNat_toBitVec] at bits
  have back := congrArg (fun word : BitVec 32 => word ^^^ word >>> shift.toNat) bits
  have enough : 32 ≤ 2 * shift.toNat := by omega
  simpa only [xorShift_restores _ enough] using back

/-- A byte is a number below 256. -/
def byteEquiv : UInt8 ≃ Fin 256 := ⟨UInt8.toFin, UInt8.ofFin, fun _ => rfl, fun _ => rfl⟩

/-- A word is a number below 2^32. -/
def wordEquiv : UInt32 ≃ Fin (2 ^ 32) :=
  ⟨UInt32.toFin, UInt32.ofFin, fun _ => rfl, fun _ => rfl⟩

instance finite_bytes : Finite UInt8 := Finite.of_equiv _ byteEquiv.symm

instance finite_words : Finite UInt32 := Finite.of_equiv _ wordEquiv.symm

theorem card_bytes : Nat.card UInt8 = 256 := by
  rw [Nat.card_congr byteEquiv, Nat.card_fin]

theorem card_words : Nat.card UInt32 = 2 ^ 32 := by
  rw [Nat.card_congr wordEquiv, Nat.card_fin]

/-- Each position of a byte string is free. -/
theorem card_strings (length : Nat) :
    Nat.card {data : List UInt8 // data.length = length} = 256 ^ length := by
  let _ : Fintype UInt8 := Fintype.ofEquiv _ byteEquiv.symm
  change Nat.card (List.Vector UInt8 length) = 256 ^ length
  rw [Nat.card_eq_fintype_card, card_vector, ← Nat.card_eq_fintype_card, card_bytes]

/-- A modulus that divides the number of words has equally many words in every class. -/
theorem card_residue {modulus : Nat} (divides : modulus ∣ 2 ^ 32) {residue : Nat}
    (below : residue < modulus) :
    Nat.card {word : UInt32 // word.toNat % modulus = residue} = 2 ^ 32 / modulus := by
  obtain ⟨count, whole⟩ := divides
  have positive : 0 < modulus := by omega
  rw [whole, Nat.mul_div_cancel_left count positive, ← Nat.card_fin count]
  apply Nat.card_congr
  have fits : ∀ k < count, residue + modulus * k < 2 ^ 32 := by
    intro k inside
    have step : modulus * (k + 1) ≤ modulus * count := Nat.mul_le_mul_left modulus inside
    rw [Nat.mul_add] at step
    omega
  refine ⟨fun word => ⟨word.1.toNat / modulus, ?_⟩,
    fun k => ⟨UInt32.ofNat (residue + modulus * k), ?_⟩, fun word => ?_, fun k => ?_⟩
  · rw [Nat.div_lt_iff_lt_mul positive, Nat.mul_comm, ← whole]
    exact word.1.toNat_lt
  · rw [UInt32.toNat_ofNat_of_lt' (fits k k.2), Nat.add_mul_mod_self_left, Nat.mod_eq_of_lt below]
  · apply Subtype.ext
    have parts := Nat.mod_add_div word.1.toNat modulus
    rw [word.2] at parts
    simp only [parts, UInt32.ofNat_toNat]
  · apply Fin.ext
    simp only [UInt32.toNat_ofNat_of_lt' (fits k k.2)]
    rw [Nat.add_mul_div_left _ _ positive, Nat.div_eq_of_lt below, Nat.zero_add]

/-- A function that is a bijection in its first argument reaches every class once for each second
argument. -/
theorem card_balanced {A B C : Type} (f : A → B → C)
    (bijective : ∀ b, Function.Bijective fun a => f a b) (S : C → Prop) :
    Nat.card {pair : A × B // S (f pair.1 pair.2)} = Nat.card {c // S c} * Nat.card B := by
  have whole : Function.Bijective fun pair : A × B => (f pair.1 pair.2, pair.2) := by
    constructor
    · rintro ⟨first, b⟩ ⟨second, b'⟩ equal
      obtain ⟨values, same⟩ := Prod.mk.inj equal
      simp only at same
      subst same
      exact Prod.ext ((bijective b).1 values) rfl
    · rintro ⟨c, b⟩
      obtain ⟨a, equal⟩ := (bijective b).2 c
      exact ⟨(a, b), Prod.ext equal rfl⟩
  have split : {pair : A × B // S (f pair.1 pair.2)} ≃ {pair : C × B // S pair.1} :=
    (Equiv.ofBijective _ whole).subtypeEquiv fun _ => Iff.rfl
  rw [← Nat.card_prod]
  exact Nat.card_congr (split.trans Equiv.prodSubtypeFstEquivSubtypeProd)

/-- A hash that loses none of the first four bytes sends equally many strings of every length to
every class of its value. -/
theorem card_strings_balanced (hash : List UInt8 → UInt32)
    (lossless : ∀ first second rest : List UInt8, first.length = 4 → second.length = 4 →
      hash (first ++ rest) = hash (second ++ rest) → first = second)
    {modulus : Nat} (divides : modulus ∣ 2 ^ 32) {residue : Nat} (below : residue < modulus)
    (length : Nat) :
    Nat.card {data : List UInt8 // data.length = 4 + length ∧ (hash data).toNat % modulus = residue} =
      2 ^ 32 / modulus * 256 ^ length := by
  have bijective : ∀ rest : {data : List UInt8 // data.length = length},
      Function.Bijective fun first : {data : List UInt8 // data.length = 4} =>
        hash (first.1 ++ rest.1) := by
    intro rest
    apply Function.Injective.bijective_of_nat_card_le
    · intro first second equal
      exact Subtype.ext (lossless _ _ _ first.2 second.2 equal)
    · rw [card_words, card_strings]
      decide
  have balanced := card_balanced (fun (first : {data : List UInt8 // data.length = 4})
    (rest : {data : List UInt8 // data.length = length}) => hash (first.1 ++ rest.1)) bijective
    fun word => word.toNat % modulus = residue
  rw [card_residue divides below, card_strings] at balanced
  rw [← balanced]
  apply Nat.card_congr
  refine ⟨fun data => ⟨(⟨data.1.take 4, ?_⟩, ⟨data.1.drop 4, ?_⟩), ?_⟩,
    fun pair => ⟨pair.1.1.1 ++ pair.1.2.1, ?_, pair.2⟩, fun data => ?_, fun pair => ?_⟩
  · rw [List.length_take, data.2.1]
    omega
  · rw [List.length_drop, data.2.1]
    omega
  · simp only [List.take_append_drop, data.2.2]
  · rw [List.length_append, pair.1.1.2, pair.1.2.2]
  · apply Subtype.ext
    simp only [List.take_append_drop]
  · apply Subtype.ext
    apply Prod.ext
    · apply Subtype.ext
      exact List.take_left' pair.1.1.2
    · apply Subtype.ext
      exact List.drop_left' pair.1.1.2

end Mixing
