import ScriptHost.Proofs.Decimals
import ScriptHost.Proofs.Keys

/-! Spellings of script keys. The spellings of numbers that a table tells apart are different: an integer is
spelled by its digits, and a double without an integer of the 64-bit range by a decimal that rounds to it and
to no integer of that range. So the spellings of two keys meet only where one is the text of the other. -/

namespace ScriptHost.Number

variable {x : Double} {n : Nat}

/-! ### Doubles near whole numbers -/

namespace Double

/-- A whole double is an integer. -/
theorem toInt?_of_units (hf : x.isFinite = true) (h : x.units = n * unitsPerOne) :
    x.toInt? = some (if x.negative then -(n : Int) else n) := by
  have hone : (unitsPerOne : Int) ≠ 0 := Int.natCast_ne_zero.2 (Nat.ne_of_gt unitsPerOne_pos)
  have hwhole : x.isFinite && x.units % unitsPerOne == 0 := by simp [hf, h]
  rw [toInt?, if_pos hwhole, signedUnits, h, Int.natCast_mul]
  split
  · rw [← Int.neg_mul, Int.mul_ediv_cancel _ hone]
  · rw [Int.mul_ediv_cancel _ hone]

/-- A whole double without an integer of the 64-bit range is past that range. -/
theorem le_of_units (hf : x.isFinite = true) (h : x.units = n * unitsPerOne)
    (hx : Script.Numeral.toInteger? (.double x) = none) : 2 ^ 63 ≤ n := by
  rw [Script.Numeral.toInteger?, toInt?_of_units hf h, Option.bind_some] at hx
  by_contra hlt
  refine absurd hx ?_
  rw [if_pos (by split <;> omega)]
  exact Option.some_ne_none _

/-- Zero is an integer. -/
theorem magnitude_ne_zero (hx : Script.Numeral.toInteger? (.double x) = none) : x.magnitude ≠ 0 := by
  intro h
  have hfinite : x.isFinite = true := by
    rw [isFinite, h]
    decide
  have hunits : x.units = 0 * unitsPerOne := (units_eq_zero_iff.2 h).trans (Nat.zero_mul _).symm
  exact absurd (le_of_units hfinite hunits hx) (by decide)

end Double

namespace Decimal

open Double (absolute unitsPerOne)

theorem absolute_of_units (h : x.units = n * unitsPerOne) : absolute x = n := by
  have hone : (unitsPerOne : ℚ) ≠ 0 := Nat.cast_ne_zero.2 (Nat.ne_of_gt Double.unitsPerOne_pos)
  rw [absolute, h, Nat.cast_mul, mul_div_assoc, div_self hone, mul_one]

/-- A whole number that rounds to a double of at most one in the last place is that double. -/
theorem units_of_covers (h : (Interval.of x).Covers n) (hs : x.scale ≤ 1074) : x.units = n * unitsPerOne := by
  have hone : unitsPerOne = 2 ^ (1074 - x.scale) * 2 ^ x.scale := by
    rw [← Nat.pow_add, Nat.sub_add_cancel hs, unitsPerOne]
  have hlower : (Interval.of x).lower ≤ n * quartersPerOne := by exact_mod_cast h.lower_le
  have hupper : n * quartersPerOne ≤ (Interval.of x).upper := by exact_mod_cast h.le_upper
  have hstep : 0 < 2 ^ x.scale := Nat.two_pow_pos _
  have hquarters : n * quartersPerOne = 4 * (n * 2 ^ (1074 - x.scale) * 2 ^ x.scale) := by
    rw [quartersPerOne, hone]
    ring
  rw [hquarters] at hlower hupper
  rw [hone, ← Nat.mul_assoc, Double.units]
  simp only [Interval.of, Double.units] at hlower hupper
  -- both are multiples of the last place, and less than one such place apart
  rcases Nat.lt_trichotomy (n * 2 ^ (1074 - x.scale)) x.significand with hlt | heq | hgt
  · have hmul := Nat.mul_le_mul_right (2 ^ x.scale) hlt
    rw [Nat.succ_mul] at hmul
    split at hlower <;> omega
  · rw [heq]
  · have hmul := Nat.mul_le_mul_right (2 ^ x.scale) hgt
    rw [Nat.succ_mul] at hmul
    omega

/-- A double to which a whole number rounds is whole. -/
theorem whole_of_covers (h : (Interval.of x).Covers n) : ∃ m, x.units = m * unitsPerOne := by
  rcases Nat.le_total x.scale 1074 with hs | hs
  · exact ⟨n, units_of_covers h hs⟩
  · have hone : 2 ^ x.scale = 2 ^ (x.scale - 1074) * unitsPerOne := by
      rw [unitsPerOne, Nat.pow_sub_mul_pow 2 hs]
    exact ⟨x.significand * 2 ^ (x.scale - 1074), by rw [Double.units, hone, Nat.mul_assoc]⟩

/-! ### The end of the 64-bit range -/

/-- The least double past the 64-bit range. -/
def past : Double := ⟨0x43E0000000000000⟩

theorem absolute_past : absolute past = 2 ^ 63 := by
  have hunits : past.units = 2 ^ 63 * unitsPerOne := by decide +kernel
  rw [absolute_of_units hunits]
  norm_num

/-- It is spelled as a number past the range, too. -/
theorem value_past : (shortest past).value = 9223372036854776000 := by
  have hshortest : shortest past = ⟨9223372036854776, 3⟩ := by decide +kernel
  rw [hshortest, value]
  norm_num

/-- A double at or past the end of the range is spelled as a number past the end. -/
theorem lt_of_value_shortest (hx : 2 ^ 63 ≤ absolute x) (hx0 : x.magnitude ≠ 0) :
    (2 : ℚ) ^ 63 < (shortest x).value := by
  have hpast : past.magnitude ≠ 0 := by decide
  rcases Nat.lt_trichotomy x.magnitude past.magnitude with hlt | heq | hgt
  · have hless := lt_of_covers hlt (covers_absolute hx0) (covers_absolute hpast)
    rw [absolute_past] at hless
    exact absurd hx hless.not_ge
  · rw [shortest_congr heq, value_past]
    norm_num
  · rw [← absolute_past]
    exact lt_of_covers hgt (covers_absolute hpast) (covers_shortest hx0)

/-- A double without an integer of the 64-bit range is not spelled as such an integer is. -/
theorem value_shortest_ne (hf : x.isFinite = true) (hx : Script.Numeral.toInteger? (.double x) = none) (i : Int64) :
    (shortest x).value ≠ i.toInt.natAbs := by
  intro hvalue
  have hx0 := Double.magnitude_ne_zero hx
  have hcovers := covers_shortest hx0
  rw [hvalue] at hcovers
  obtain ⟨m, hm⟩ := whole_of_covers hcovers
  have hpast : (2 : ℚ) ^ 63 ≤ absolute x := by
    rw [absolute_of_units hm]
    exact_mod_cast Double.le_of_units hf hm hx
  have hlt := lt_of_value_shortest hpast hx0
  rw [hvalue] at hlt
  have hlt' : 2 ^ 63 < i.toInt.natAbs := by exact_mod_cast hlt
  have hi := i.toInt_lt
  have hi' := i.le_toInt
  omega

end Decimal

end ScriptHost.Number

namespace ScriptHost.Host

open Number
open Script.Numeral (integerText toInteger?)

/-! ### Spelled numbers -/

/-- Characters behind a minus or none. -/
def signed (negative : Bool) (body : List Char) : List Char := (if negative then ['-'] else []) ++ body

theorem signed_inj {m n : Bool} {cs ds : List Char} (hc : '-' ∉ cs) (hd : '-' ∉ ds) (h : signed m cs = signed n ds) :
    m = n ∧ cs = ds := by
  cases m with
  | false =>
    cases n with
    | false => exact ⟨rfl, h⟩
    | true =>
      obtain rfl : cs = '-' :: ds := h
      exact absurd List.mem_cons_self hc
  | true =>
    cases n with
    | false =>
      obtain rfl : '-' :: cs = ds := h
      exact absurd List.mem_cons_self hd
    | true => exact ⟨rfl, (List.cons.inj h).2⟩

/-- What stands behind the sign of a double. -/
def unsignedText (x : Double) : List Char :=
  if x.isInfinite then "inf".toList else (Decimal.shortest x).positional.toList

theorem toList_integerText (i : Int) :
    (integerText i).toList = signed (decide (i < 0)) (Decimal.digitChars i.natAbs) := by
  rw [integerText, String.toList_ofList, signed]
  simp

theorem toList_plainNumber {x : Double} (h : x.isNaN = false) :
    (plainNumber x).toList = signed x.negative (unsignedText x) := by
  rw [plainNumber, h, signed, unsignedText]
  cases x.negative <;> cases x.isInfinite <;> simp

theorem minus_not_mem_digitChars (n : Nat) : '-' ∉ Decimal.digitChars n := fun h =>
  absurd (Decimal.isDigit_of_mem_digitChars h) (by decide)

theorem minus_not_mem_positional (d : Decimal) : '-' ∉ d.positional.toList := fun h =>
  absurd (Decimal.mem_positional h) (by decide)

theorem minus_not_mem_unsignedText (x : Double) : '-' ∉ unsignedText x := by
  rw [unsignedText]
  split
  · decide
  · exact minus_not_mem_positional _

theorem digitChars_ne_inf (n : Nat) : Decimal.digitChars n ≠ "inf".toList := by
  intro h
  have hi : 'i' ∈ Decimal.digitChars n := h ▸ List.mem_cons_self
  exact absurd (Decimal.isDigit_of_mem_digitChars hi) (by decide)

theorem unsignedText_eq_inf_iff {x : Double} : unsignedText x = "inf".toList ↔ x.isInfinite = true := by
  constructor
  · intro h
    by_contra hx
    rw [unsignedText, if_neg hx] at h
    have hi : 'i' ∈ (Decimal.shortest x).positional.toList := h ▸ List.mem_cons_self
    exact absurd (Decimal.mem_positional hi) (by decide)
  · exact fun h => if_pos h

/-- Doubles that are neither zero nor NaN are spelled differently. -/
theorem plainNumber_inj {x y : Double} (hx : x.isNaN = false) (hy : y.isNaN = false) (hx0 : x.magnitude ≠ 0)
    (hy0 : y.magnitude ≠ 0) (h : plainNumber x = plainNumber y) : x = y := by
  have hlist := congrArg String.toList h
  rw [toList_plainNumber hx, toList_plainNumber hy] at hlist
  obtain ⟨hsign, htext⟩ := signed_inj (minus_not_mem_unsignedText x) (minus_not_mem_unsignedText y) hlist
  refine Double.eq_of_magnitude hsign ?_
  by_cases hinf : x.isInfinite = true
  · have hinf' : y.isInfinite = true := unsignedText_eq_inf_iff.1 (htext ▸ unsignedText_eq_inf_iff.2 hinf)
    exact (beq_iff_eq.1 hinf).trans (beq_iff_eq.1 hinf').symm
  · have hinf' : ¬y.isInfinite = true := fun hc =>
      hinf (unsignedText_eq_inf_iff.1 (htext.trans (unsignedText_eq_inf_iff.2 hc)))
    rw [unsignedText, if_neg hinf, unsignedText, if_neg hinf'] at htext
    exact Decimal.magnitude_eq_of_positional hx0 hy0 (String.toList_inj.1 htext)

theorem integerText_inj {i j : Int} (h : integerText i = integerText j) : i = j := by
  have hlist := congrArg String.toList h
  rw [toList_integerText, toList_integerText] at hlist
  obtain ⟨hsign, hdigits⟩ := signed_inj (minus_not_mem_digitChars _) (minus_not_mem_digitChars _) hlist
  have habs : i.natAbs = j.natAbs := by
    have hvalue := congrArg (Nat.ofDigitChars 10 · 0) hdigits
    simpa [Decimal.digitChars, Nat.ofDigitChars_ten_toDigits] using hvalue
  have hsign' : i < 0 ↔ j < 0 := decide_eq_decide.1 hsign
  omega

/-- A double without an integer of the 64-bit range is spelled like no such integer. -/
theorem plainNumber_ne_integerText {x : Double} (hnan : x.isNaN = false) (hx : toInteger? (.double x) = none)
    (i : Int64) : plainNumber x ≠ integerText i.toInt := by
  intro h
  have hlist := congrArg String.toList h
  rw [toList_plainNumber hnan, toList_integerText] at hlist
  obtain ⟨-, htext⟩ := signed_inj (minus_not_mem_unsignedText x) (minus_not_mem_digitChars _) hlist
  have hinf : ¬x.isInfinite = true := fun hc =>
    digitChars_ne_inf _ (htext.symm.trans (unsignedText_eq_inf_iff.2 hc))
  have hfinite : x.isFinite = true := by
    simp only [Double.isFinite, Double.isNaN, Double.isInfinite, decide_eq_true_eq, decide_eq_false_iff_not,
      beq_iff_eq] at hnan hinf ⊢
    omega
  rw [unsignedText, if_neg hinf] at htext
  have hvalue := congrArg Decimal.spelled htext
  rw [Decimal.spelled_positional, Decimal.spelled_digitChars] at hvalue
  exact Decimal.value_shortest_ne hfinite hx i hvalue

/-! ### Keys -/

theorem eq_ofString_of_keySpelling? {b : ByteArray} {k : String} (h : keySpelling? (.text b) = some k) :
    Script.Value.text b = .ofString k := ofString_of_fromUTF8? h

/-- How a number is spelled as a key: as the integer that it is, or else as a double. -/
theorem keySpelling?_number {n : Script.Numeral} {k : String} (hn : (Script.Value.number n).badKey? = none)
    (h : keySpelling? (.number n) = some k) :
    (∃ i : Int64, n.asKey = .integer i ∧ k = integerText i.toInt) ∨
      ∃ x, n.asKey = .double x ∧ x.isNaN = false ∧ toInteger? (.double x) = none ∧ k = plainNumber x := by
  cases hi : n.toInteger? with
  | some i =>
    have hkey : n.asKey = .integer i := by rw [Script.Numeral.asKey, hi]
    rw [keySpelling?, hkey] at h
    exact .inl ⟨i, hkey, (Option.some.inj h).symm⟩
  | none =>
    have hkey : n.asKey = n := by rw [Script.Numeral.asKey, hi]
    cases n with
    | integer i => cases hi
    | double x =>
      rw [keySpelling?, hkey] at h
      have hnan : x.isNaN = false := by
        rw [Script.Value.badKey?] at hn
        exact Bool.eq_false_iff.2 fun hc => by simp [hc] at hn
      exact .inr ⟨x, hkey, hnan, hi, (Option.some.inj h).symm⟩

/-- No two numbers that a table tells apart have the same spelling. -/
theorem asKey_eq_of_keySpelling? {m n : Script.Numeral} {k : String} (hm : (Script.Value.number m).badKey? = none)
    (hn : (Script.Value.number n).badKey? = none) (hk : keySpelling? (.number m) = some k)
    (hl : keySpelling? (.number n) = some k) : m.asKey = n.asKey := by
  rcases keySpelling?_number hm hk with ⟨i, hi, rfl⟩ | ⟨x, hx, hxnan, hxint, rfl⟩
  · rcases keySpelling?_number hn hl with ⟨j, hj, hij⟩ | ⟨y, -, hynan, hyint, hiy⟩
    · rw [hi, hj, Int64.toInt_inj.1 (integerText_inj hij)]
    · exact absurd hiy.symm (plainNumber_ne_integerText hynan hyint i)
  · rcases keySpelling?_number hn hl with ⟨j, -, hxj⟩ | ⟨y, hy, hynan, hyint, hxy⟩
    · exact absurd hxj (plainNumber_ne_integerText hxnan hxint j)
    · rw [hx, hy, plainNumber_inj hxnan hynan (Double.magnitude_ne_zero hxint) (Double.magnitude_ne_zero hyint) hxy]

/-- Two keys that a table tells apart have the same host key exactly if one of them is a string and the host
key of the other, which is a number. -/
theorem keySpelling?_collides_iff {a b : Script.Value} (ha : a.badKey? = none) (hb : b.badKey? = none)
    (hne : a.asKey ≠ b.asKey) {k l : String} (hk : keySpelling? a = some k) (hl : keySpelling? b = some l) :
    k = l ↔ (∃ n, b = .number n ∧ a = .ofString l) ∨ ∃ n, a = .number n ∧ b = .ofString k := by
  constructor
  · rintro rfl
    cases a with
    | text c =>
      cases b with
      | text d =>
        rw [eq_ofString_of_keySpelling? hk, eq_ofString_of_keySpelling? hl] at hne
        exact absurd rfl hne
      | number n => exact .inl ⟨n, rfl, eq_ofString_of_keySpelling? hk⟩
      | _ => cases hl
    | number m =>
      cases b with
      | text d => exact .inr ⟨m, rfl, eq_ofString_of_keySpelling? hl⟩
      | number n => exact absurd (congrArg Script.Value.number (asKey_eq_of_keySpelling? ha hb hk hl)) hne
      | _ => cases hl
    | _ => cases hk
  · rintro (⟨n, rfl, rfl⟩ | ⟨m, rfl, rfl⟩)
    · exact Option.some.inj (hk.symm.trans (fromUTF8?_toUTF8 l))
    · exact Option.some.inj ((fromUTF8?_toUTF8 k).symm.trans hl)

/-- The least double past the 64-bit range has the host key of the string that spells it, and not that of the
last integer of the range. -/
theorem keySpelling?_past :
    keySpelling? (.ofString "9223372036854776000") = keySpelling? (.number (.double Decimal.past)) ∧
      keySpelling? (.number (.integer Int64.maxValue)) ≠ keySpelling? (.number (.double Decimal.past)) := by
  have hpast : keySpelling? (.number (.double Decimal.past)) = some "9223372036854776000" := by decide +kernel
  have hlast : keySpelling? (.number (.integer Int64.maxValue)) = some "9223372036854775807" := by decide +kernel
  have hbad : (Script.Value.number (.double Decimal.past)).badKey? = none := by decide
  have hstring : (Script.Value.ofString "9223372036854776000").asKey ≠
      (Script.Value.number (.double Decimal.past)).asKey := nofun
  have hinteger : (Script.Value.number (.integer Int64.maxValue)).asKey ≠
      (Script.Value.number (.double Decimal.past)).asKey := by decide +kernel
  constructor
  · have htext := fromUTF8?_toUTF8 "9223372036854776000"
    have hequal := (keySpelling?_collides_iff rfl hbad hstring htext hpast).2 (.inl ⟨_, rfl, rfl⟩)
    rw [hpast, ← hequal]
    exact htext
  · rw [hpast, hlast]
    intro h
    rcases (keySpelling?_collides_iff rfl hbad hinteger hlast hpast).1 (Option.some.inj h) with ⟨n, -, hc⟩ | ⟨n, -, hc⟩
    · cases hc
    · cases hc

end ScriptHost.Host
