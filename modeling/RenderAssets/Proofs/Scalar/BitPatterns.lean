import RenderAssets.Scalar

/-!
# Bit patterns of binary32 values

A pattern has a sign, eight bits of exponent and twenty-three of mantissa. To read it as a
value takes the three apart, and to store the value puts them together again. In between,
the mantissa of a normal number has its leading one, which is not stored.

What comes out is the pattern that went in, unless that is a NaN. There is one NaN among the
values, and so all NaN patterns are merged into one by being read. No more is used for that
than the definitions of reading and storing: the cases are those of reading, and each part is
followed into its place.
-/

namespace RenderAssets.Scalar

/-- A binary32 pattern, with one pattern for all NaNs. -/
def mergeNaNs (pattern : UInt32) : UInt32 :=
  if (Float32.ofBits pattern).isNaN then nanBits else pattern

namespace Binary32

open Float.Model (Format UnpackedFloat)
open Float.Model.UnpackedFloat

/-- An exponent is stored with a bias. -/
theorem exponentBias_eq : Format.binary32.exponentBias = 127 := by decide

/-- A mantissa has twenty-four digits with its leading one. -/
theorem mantissaBits_eq : Format.binary32.mantissaBits = 24 := by decide

/-- A pattern is put together from its three parts. -/
theorem packComponents_parts (pattern : BitVec 32) :
    packComponents .binary32 (.ofBitVec (@unpackSign .binary32 pattern))
      (@unpackExponent .binary32 pattern) (@unpackMantissa .binary32 pattern) = pattern := by
  have sign (bit : BitVec 1) : (Sign.ofBitVec bit).toBitVec = bit := by
    revert bit
    decide
  rw [packComponents, sign]
  change (pattern.extractLsb' (0 + 23 + 8) 1 ++ pattern.extractLsb' (0 + 23) 8) ++
    pattern.extractLsb' 0 23 = _
  rw [BitVec.extractLsb'_append_extractLsb'_eq_extractLsb' rfl,
    BitVec.extractLsb'_append_extractLsb'_eq_extractLsb' rfl, BitVec.extractLsb'_eq_self]

section Reading

variable {pattern : BitVec 32}

/-- The greatest exponent is that of an infinity if the mantissa is empty. -/
theorem unpack_infinity (special : @unpackExponent .binary32 pattern = -1#8)
    (empty : @unpackMantissa .binary32 pattern = 0#23) :
    unpack .binary32 pattern = .infinity (.ofBitVec (@unpackSign .binary32 pattern)) :=
  (if_pos special).trans (if_pos empty)

/-- The greatest exponent is that of a NaN if the mantissa is not empty. -/
theorem unpack_notANumber (special : @unpackExponent .binary32 pattern = -1#8)
    (filled : @unpackMantissa .binary32 pattern ≠ 0#23) :
    unpack .binary32 pattern = .notANumber :=
  (if_pos special).trans (if_neg filled)

/-- The least exponent is not the greatest. -/
theorem number_of_least (least : @unpackExponent .binary32 pattern = 0#8) :
    @unpackExponent .binary32 pattern ≠ -1#8 := by
  rw [least]
  decide

/-- The least exponent is that of a zero if the mantissa is empty. -/
theorem unpack_zero (least : @unpackExponent .binary32 pattern = 0#8)
    (empty : @unpackMantissa .binary32 pattern = 0#23) :
    unpack .binary32 pattern = .zero (.ofBitVec (@unpackSign .binary32 pattern)) :=
  (if_neg (number_of_least least)).trans ((if_pos least).trans (dif_pos empty))

/-- The least exponent is that of a subnormal number if the mantissa is not empty. -/
theorem unpack_subnormal (least : @unpackExponent .binary32 pattern = 0#8)
    (filled : @unpackMantissa .binary32 pattern ≠ 0#23) :
    ∃ positive, unpack .binary32 pattern =
      .finite (.ofBitVec (@unpackSign .binary32 pattern))
        (@unpackMantissa .binary32 pattern).toNat (-149) positive := by
  have exponent : ((@unpackExponent .binary32 pattern).toNat : Int) -
      (Format.binary32.exponentBias + Format.binary32.mantissaBitsWithoutImplicit) + 1 = -149 := by
    rw [least, exponentBias_eq]
    decide
  have positive : 0 < (@unpackMantissa .binary32 pattern).toNat :=
    Nat.pos_of_ne_zero fun zero => filled (BitVec.eq_of_toNat_eq zero)
  refine ⟨positive, ?_⟩
  rw [← exponent]
  exact (if_neg (number_of_least least)).trans ((if_pos least).trans (dif_neg filled))

/-- Every other exponent is that of a normal number. -/
theorem unpack_normal (number : @unpackExponent .binary32 pattern ≠ -1#8)
    (normal : @unpackExponent .binary32 pattern ≠ 0#8) :
    ∃ positive, unpack .binary32 pattern =
      .finite (.ofBitVec (@unpackSign .binary32 pattern))
        (1#1 ++ @unpackMantissa .binary32 pattern).toNat
        ((@unpackExponent .binary32 pattern).toNat - 150) positive :=
  ⟨_, (if_neg number).trans (if_neg normal)⟩

end Reading

/-- A mantissa without a leading one is stored under the least exponent. -/
theorem pack_subnormal (sign : Sign) (mantissa : BitVec 23) (positive : 0 < mantissa.toNat) :
    pack .binary32 (.finite sign mantissa.toNat (-149) positive) =
      packComponents .binary32 sign 0#8 mantissa := by
  have short : mantissa.toNat.log2 + 1 ≠ Format.binary32.mantissaBits := by
    have below := (Nat.log2_lt (Nat.ne_of_gt positive)).mpr mantissa.isLt
    rw [mantissaBits_eq]
    omega
  calc pack .binary32 (.finite sign mantissa.toNat (-149) positive)
    _ = packComponents .binary32 sign 0#8 (.ofNat 23 mantissa.toNat) :=
        -- That the exponent is not too great is evaluated on the way.
        if_neg short
    _ = packComponents .binary32 sign 0#8 mantissa := by
        rw [BitVec.ofNat_toNat, BitVec.setWidth_eq]

/-- The leading one of a mantissa is not stored, if the exponent is that of a number. -/
theorem pack_normal (sign : Sign) (exponent : BitVec 8) (mantissa : BitVec 23)
    (number : exponent ≠ -1#8) (positive : 0 < (1#1 ++ mantissa).toNat) :
    pack .binary32 (.finite sign (1#1 ++ mantissa).toNat (exponent.toNat - 150) positive) =
      packComponents .binary32 sign exponent mantissa := by
  have led : (1#1 ++ mantissa).toNat = 2 ^ 23 + mantissa.toNat := by
    rw [BitVec.toNat_append, ← Nat.shiftLeft_add_eq_or_of_lt mantissa.isLt]
    rfl
  have long : (1#1 ++ mantissa).toNat.log2 + 1 = Format.binary32.mantissaBits := by
    rw [mantissaBits_eq, Nat.add_right_cancel_iff, led, Nat.log2_eq_iff (by omega)]
    have := mantissa.isLt
    omega
  have biased : ((exponent.toNat : Int) - 150 + Format.binary32.exponentBias +
      Format.binary32.mantissaBitsWithoutImplicit).toNat = exponent.toNat := by
    rw [exponentBias_eq]
    change ((exponent.toNat : Int) - 150 + (127 : Nat) + (23 : Nat)).toNat = _
    omega
  have below : exponent.toNat < 255 := BitVec.lt_allOnes_iff.mpr number
  have stored : BitVec.ofNat 23 (1#1 ++ mantissa).toNat = mantissa := by
    apply BitVec.eq_of_toNat_eq
    rw [BitVec.toNat_ofNat, led, Nat.add_mod_left, Nat.mod_eq_of_lt mantissa.isLt]
  calc pack .binary32 (.finite sign (1#1 ++ mantissa).toNat (exponent.toNat - 150) positive)
    _ = packComponents .binary32 sign
          (.ofNat 8 ((exponent.toNat : Int) - 150 + Format.binary32.exponentBias +
            Format.binary32.mantissaBitsWithoutImplicit).toNat)
          (.ofNat 23 (1#1 ++ mantissa).toNat) := by
        refine (if_neg ?_).trans (if_pos long)
        rw [biased]
        change ¬ 256 ≤ exponent.toNat + 1
        omega
    _ = packComponents .binary32 sign exponent mantissa := by
        rw [biased, stored, BitVec.ofNat_toNat, BitVec.setWidth_eq]

/-- A pattern has the parts of a NaN and is read as one, or else it comes back from what is
read. -/
theorem unpack_cases (pattern : BitVec 32) :
    (@unpackExponent .binary32 pattern = -1#8 ∧ @unpackMantissa .binary32 pattern ≠ 0#23 ∧
      unpack .binary32 pattern = .notANumber) ∨
    ((unpack .binary32 pattern).isNaN = false ∧
      pack .binary32 (unpack .binary32 pattern) = pattern) := by
  have parts := packComponents_parts pattern
  by_cases special : @unpackExponent .binary32 pattern = -1#8
  · by_cases empty : @unpackMantissa .binary32 pattern = 0#23
    · rw [special, empty] at parts
      rw [unpack_infinity special empty]
      exact .inr ⟨rfl, parts⟩
    · exact .inl ⟨special, empty, unpack_notANumber special empty⟩
  · right
    by_cases least : @unpackExponent .binary32 pattern = 0#8
    · rw [least] at parts
      by_cases empty : @unpackMantissa .binary32 pattern = 0#23
      · rw [empty] at parts
        rw [unpack_zero least empty]
        exact ⟨rfl, parts⟩
      · obtain ⟨positive, read⟩ := unpack_subnormal least empty
        rw [read]
        exact ⟨rfl, (pack_subnormal _ _ positive).trans parts⟩
    · obtain ⟨positive, read⟩ := unpack_normal special least
      rw [read]
      exact ⟨rfl, (pack_normal _ _ _ special positive).trans parts⟩

/-- A pattern is read as a NaN if it has the greatest exponent and a mantissa that tells it
from an infinity. -/
theorem isNaN_unpack_iff {pattern : BitVec 32} :
    (unpack .binary32 pattern).isNaN ↔
      @unpackExponent .binary32 pattern = -1#8 ∧ @unpackMantissa .binary32 pattern ≠ 0#23 := by
  constructor
  · intro unordered
    rcases unpack_cases pattern with ⟨special, filled, _⟩ | ⟨ordered, _⟩
    · exact ⟨special, filled⟩
    · exact absurd (ordered.symm.trans unordered) Bool.false_ne_true
  · rintro ⟨special, filled⟩
    rw [unpack_notANumber special filled]
    rfl

/-- Storing what was read gives the pattern back, unless that is a NaN. -/
theorem pack_unpack (pattern : BitVec 32) :
    pack .binary32 (unpack .binary32 pattern) =
      if (unpack .binary32 pattern).isNaN then nanBits.toBitVec else pattern := by
  rcases unpack_cases pattern with ⟨_, _, read⟩ | ⟨ordered, stored⟩
  · rw [read]
    rfl
  · rw [ordered]
    exact stored

/-- A value is known by its pattern. -/
theorem toBits_inj {left right : Float32} : left.toBits = right.toBits ↔ left = right := by
  constructor
  · intro same
    obtain ⟨⟨pattern, _⟩⟩ := left
    obtain ⟨⟨_, _⟩⟩ := right
    obtain rfl : pattern = _ := same
    rfl
  · rintro rfl
    rfl

/-- The NaN among the values has the pattern that stands for all. -/
theorem toBits_of_isNaN {value : Float32} (unordered : value.isNaN) : value.toBits = nanBits := by
  obtain ⟨⟨pattern, valid⟩⟩ := value
  obtain ⟨special, filled⟩ := isNaN_unpack_iff.mp unordered
  exact UInt32.toBitVec_inj.mp (valid.eq_packedNaN special filled)

/-- A pattern that stores a NaN is read as one, and no other pattern is. -/
theorem isNaN_ofBits (pattern : UInt32) :
    (Float32.ofBits pattern).isNaN = (unpack .binary32 pattern.toBitVec).isNaN := by
  change (unpack .binary32 (pack .binary32 (unpack .binary32 pattern.toBitVec))).isNaN = _
  rw [pack_unpack]
  split
  case isTrue unordered =>
    rw [unordered]
    decide
  case isFalse => rfl

/-- To read a pattern as a value merges the NaNs and keeps every other pattern. -/
theorem toBits_ofBits (pattern : UInt32) :
    (Float32.ofBits pattern).toBits = mergeNaNs pattern := by
  rw [mergeNaNs, isNaN_ofBits]
  change UInt32.ofBitVec (pack .binary32 (unpack .binary32 pattern.toBitVec)) = _
  rw [pack_unpack]
  split <;> rfl

/-- The patterns of values have no NaNs to merge. -/
theorem mergeNaNs_toBits (value : Float32) : mergeNaNs value.toBits = value.toBits := by
  rw [mergeNaNs, isNaN_ofBits]
  split
  case isTrue unordered => exact (toBits_of_isNaN unordered).symm
  case isFalse => rfl

/-- A value is stored under a pattern that is read as that value. -/
theorem ofBits_toBits (value : Float32) : Float32.ofBits value.toBits = value := by
  rw [← toBits_inj, toBits_ofBits, mergeNaNs_toBits]

end Binary32

end RenderAssets.Scalar
