import Mathlib.Algebra.Order.Field.Power
import Mathlib.Data.List.TakeWhile
import Mathlib.Data.Nat.Cast.Order.Field
import Mathlib.Data.Rat.Cast.Order
import Mathlib.Tactic.FieldSimp
import Mathlib.Tactic.Linarith
import Mathlib.Tactic.Positivity
import Mathlib.Tactic.Ring
import ScriptHost.Number.Decimal

/-! Decimals as numbers. The layout without exponent is read back as the number that the decimal is, and
the shortest decimal of a double lies among the numbers that round to the double. Those of different
doubles lie apart, in the order of the doubles; so no two doubles share a shortest decimal, sign apart. -/

namespace ScriptHost.Number

variable {x y : Double}

/-! ### Values and layout -/

namespace Decimal

/-- The number that a decimal is. -/
def value (d : Decimal) : ℚ := d.digits * 10 ^ d.exponent

theorem value_eq_div (d : Decimal) :
    d.value = (d.digits * 10 ^ d.exponent.toNat : ℕ) / (10 ^ (-d.exponent).toNat : ℕ) := by
  obtain ⟨n, k, h⟩ | ⟨n, k, h⟩ : (∃ n k : ℕ, d = ⟨n, k⟩) ∨ ∃ n k : ℕ, d = ⟨n, -k⟩ := by
    obtain ⟨n, e⟩ := d
    obtain ⟨k, rfl | rfl⟩ := e.eq_nat_or_neg
    · exact .inl ⟨n, k, rfl⟩
    · exact .inr ⟨n, k, rfl⟩
  · rw [h]
    simp [value]
  · rw [h]
    simp [value, div_eq_mul_inv]

/-- The number that digits spell, with a point among them or without. -/
def spelled (cs : List Char) : ℚ :=
  (Nat.ofDigitChars 10 (cs.filter (· != '.')) 0 : ℕ) / 10 ^ ((cs.dropWhile (· != '.')).length - 1)

theorem isDigit_of_mem_digitChars {n : Nat} {c : Char} (h : c ∈ digitChars n) : c.isDigit = true :=
  Nat.isDigit_of_mem_toDigits (by decide) (by decide) h

theorem isDigit_of_mem_zeros {n : Nat} {c : Char} (h : c ∈ List.replicate n '0') : c.isDigit = true := by
  rw [List.eq_of_mem_replicate h]
  decide

theorem ne_point_of_isDigit {c : Char} (h : c.isDigit = true) : (c != '.') = true := by
  rw [bne_iff_ne]
  rintro rfl
  exact absurd h (by decide)

theorem ne_point_of_mem_digitChars {n : Nat} : ∀ c ∈ digitChars n, (c != '.') = true :=
  fun _ hc => ne_point_of_isDigit (isDigit_of_mem_digitChars hc)

theorem ne_point_of_mem_zeros {n : Nat} : ∀ c ∈ List.replicate n '0', (c != '.') = true :=
  fun _ hc => ne_point_of_isDigit (isDigit_of_mem_zeros hc)

theorem spelled_of_no_point {cs : List Char} (h : ∀ c ∈ cs, (c != '.') = true) :
    spelled cs = (Nat.ofDigitChars 10 cs 0 : ℕ) := by
  rw [spelled, List.filter_eq_self.2 h, List.dropWhile_eq_nil_iff.2 h]
  simp

theorem spelled_point {cs ds : List Char} (hc : ∀ c ∈ cs, (c != '.') = true) (hd : ∀ c ∈ ds, (c != '.') = true) :
    spelled (cs ++ '.' :: ds) = (Nat.ofDigitChars 10 (cs ++ ds) 0 : ℕ) / 10 ^ ds.length := by
  have hafter : (cs ++ '.' :: ds).dropWhile (· != '.') = '.' :: ds := by
    rw [List.dropWhile_append_of_pos hc]
    rfl
  have hdigits : (cs ++ '.' :: ds).filter (· != '.') = cs ++ ds := by
    rw [List.filter_append, List.filter_eq_self.2 hc, List.filter_cons_of_neg (by simp), List.filter_eq_self.2 hd]
  rw [spelled, hafter, hdigits]
  simp

theorem spelled_digitChars (n : Nat) : spelled (digitChars n) = n := by
  rw [spelled_of_no_point ne_point_of_mem_digitChars, digitChars, Nat.ofDigitChars_ten_toDigits]

/-- The layout without exponent spells the number. -/
theorem spelled_positional (d : Decimal) : spelled d.positional.toList = d.value := by
  have hpoint := ne_point_of_mem_digitChars (n := d.digits)
  rw [value_eq_div, positional]
  by_cases he : 0 ≤ d.exponent
  · have hdown : (-d.exponent).toNat = 0 := by omega
    have hall : ∀ c ∈ digitChars d.digits ++ List.replicate d.exponent.toNat '0', (c != '.') = true :=
      List.forall_mem_append.2 ⟨hpoint, ne_point_of_mem_zeros⟩
    simp only [if_pos he, String.toList_ofList, spelled_of_no_point hall, hdown]
    rw [Nat.ofDigitChars_append, Nat.ofDigitChars_replicate_zero, digitChars, Nat.ofDigitChars_ten_toDigits]
    simp [Nat.mul_comm]
  · have hup : d.exponent.toNat = 0 := by omega
    simp only [if_neg he, hup]
    split
    next hlt =>
      rw [String.toList_ofList, spelled_point (fun c hc => hpoint c (List.mem_of_mem_take hc))
        (fun c hc => hpoint c (List.mem_of_mem_drop hc)), List.take_append_drop, List.length_drop,
        Nat.sub_sub_self (Nat.le_of_lt hlt), digitChars, Nat.ofDigitChars_ten_toDigits]
      simp
    next hle =>
      have hzero : ∀ c ∈ ['0'], (c != '.') = true := ne_point_of_mem_zeros (n := 1)
      have htail : ∀ c ∈ List.replicate ((-d.exponent).toNat - (digitChars d.digits).length) '0' ++ digitChars d.digits,
          (c != '.') = true := List.forall_mem_append.2 ⟨ne_point_of_mem_zeros, hpoint⟩
      have hlength : (-d.exponent).toNat - (digitChars d.digits).length + (digitChars d.digits).length =
          (-d.exponent).toNat := Nat.sub_add_cancel (Nat.le_of_not_lt hle)
      have hvalue := spelled_point hzero htail
      simp only [List.cons_append, List.nil_append, Nat.ofDigitChars_cons, Nat.ofDigitChars_append,
        Nat.ofDigitChars_replicate_zero, List.length_append, List.length_replicate, hlength] at hvalue
      rw [String.toList_ofList]
      refine hvalue.trans ?_
      simp [digitChars, Nat.ofDigitChars_ten_toDigits]

theorem mem_positional {d : Decimal} {c : Char} (h : c ∈ d.positional.toList) : c.isDigit = true ∨ c = '.' := by
  unfold positional at h
  simp only at h
  split at h
  · rw [String.toList_ofList] at h
    exact .inl ((List.mem_append.1 h).elim isDigit_of_mem_digitChars isDigit_of_mem_zeros)
  · split at h
    · rw [String.toList_ofList] at h
      rcases List.mem_append.1 h with h | h
      · exact .inl (isDigit_of_mem_digitChars (List.mem_of_mem_take h))
      · exact (List.mem_cons.1 h).elim .inr fun h => .inl (isDigit_of_mem_digitChars (List.mem_of_mem_drop h))
    · rw [String.toList_ofList] at h
      rcases List.mem_cons.1 h with rfl | h
      · exact .inl rfl
      · refine (List.mem_cons.1 h).elim .inr fun h => .inl ?_
        exact (List.mem_append.1 h).elim isDigit_of_mem_zeros isDigit_of_mem_digitChars

/-- Zeros at the end of the digits can move into the exponent. -/
theorem value_trimmed_go (n : Nat) (d : Decimal) : (trimmed.go n d).value = d.value := by
  induction n generalizing d with
  | zero => rfl
  | succ n ih =>
    rw [trimmed.go]
    split
    next h =>
      rw [ih]
      have hdigits : d.digits = 10 * (d.digits / 10) := (Nat.mul_div_cancel' (Nat.dvd_of_mod_eq_zero h.2)).symm
      have hcast : (d.digits : ℚ) = 10 * (d.digits / 10 : ℕ) := by exact_mod_cast hdigits
      rw [value, value, hcast, zpow_add_one₀ (by norm_num)]
      ring
    next => rfl

theorem value_trimmed (d : Decimal) : d.trimmed.value = d.value := value_trimmed_go ..

/-! ### Intervals -/

/-- The number is one of those that round to the double. -/
def Interval.Covers (i : Interval) (q : ℚ) : Prop :=
  if i.closed then (i.lower : ℚ) ≤ q * quartersPerOne ∧ q * quartersPerOne ≤ i.upper
  else (i.lower : ℚ) < q * quartersPerOne ∧ q * quartersPerOne < i.upper

namespace Interval

variable {i : Interval} {q : ℚ}

theorem has_iff (i : Interval) (num : Nat) {den : Nat} (h : 0 < den) :
    i.has num den = true ↔ i.Covers ((num : ℚ) / den) := by
  have hden : (0 : ℚ) < den := Nat.cast_pos.2 h
  have hle (a b : Nat) : a * den ≤ b * quartersPerOne ↔ (a : ℚ) ≤ (b : ℚ) / den * quartersPerOne := by
    rw [div_mul_eq_mul_div, le_div_iff₀ hden]
    exact_mod_cast Iff.rfl
  have hge (a b : Nat) : b * quartersPerOne ≤ a * den ↔ (b : ℚ) / den * quartersPerOne ≤ a := by
    rw [div_mul_eq_mul_div, div_le_iff₀ hden]
    exact_mod_cast Iff.rfl
  rw [has, Covers]
  split
  · simp only [Bool.and_eq_true, decide_eq_true_eq, hle, hge]
  · simp only [Bool.and_eq_true, decide_eq_true_eq, ← not_le, hle, hge]

theorem Covers.lower_le (h : i.Covers q) : (i.lower : ℚ) ≤ q * quartersPerOne := by
  rw [Covers] at h
  split at h
  · exact h.1
  · exact h.1.le

theorem Covers.le_upper (h : i.Covers q) : q * quartersPerOne ≤ i.upper := by
  rw [Covers] at h
  split at h
  · exact h.2
  · exact h.2.le

/-- What lies inside is covered. -/
theorem covers_of_lt (hl : (i.lower : ℚ) < q * quartersPerOne) (hu : q * quartersPerOne < i.upper) : i.Covers q := by
  rw [Covers]
  split
  · exact ⟨hl.le, hu.le⟩
  · exact ⟨hl, hu⟩

end Interval

end Decimal

namespace Double

/-! ### Doubles in order -/

/-- The absolute value of a finite double. -/
def absolute (x : Double) : ℚ := (x.units : ℚ) / unitsPerOne

theorem unitsPerOne_pos : 0 < unitsPerOne := by
  unfold unitsPerOne
  positivity

theorem magnitude_lt (x : Double) : x.magnitude < 2 ^ 63 := Nat.mod_lt _ (by decide)

theorem magnitude_ofMagnitude (m : Nat) (h : m < 2 ^ 63) : (ofMagnitude false m).magnitude = m := by
  have hbits : (UInt64.ofNat m).toNat = m := by
    rw [UInt64.toNat_ofNat']
    omega
  simp only [ofMagnitude, magnitude, Bool.false_eq_true, if_false, hbits]
  omega

/-- The sign and the other bits make the double. -/
theorem eq_of_magnitude (hn : x.negative = y.negative) (hm : x.magnitude = y.magnitude) : x = y := by
  obtain ⟨b⟩ := x
  obtain ⟨c⟩ := y
  simp only [negative, magnitude, decide_eq_decide] at hn hm
  have hb := b.toNat_lt
  have hc := c.toNat_lt
  rw [mk.injEq, ← UInt64.toNat_inj]
  omega

theorem isZero_iff : x.isZero = true ↔ x.magnitude = 0 := by rw [isZero, beq_iff_eq]

theorem units_eq_zero_iff : x.units = 0 ↔ x.magnitude = 0 := by
  have hscale : 0 < 2 ^ x.scale := Nat.two_pow_pos _
  rw [units, Nat.mul_eq_zero, or_iff_left (Nat.ne_of_gt hscale), significand, exponentField, fractionField]
  split <;> omega

section SameMagnitude

variable (h : x.magnitude = y.magnitude)
include h

theorem exponentField_congr : x.exponentField = y.exponentField := by rw [exponentField, h, exponentField]

theorem fractionField_congr : x.fractionField = y.fractionField := by rw [fractionField, h, fractionField]

theorem significand_congr : x.significand = y.significand := by
  rw [significand, exponentField_congr h, fractionField_congr h, significand]

theorem scale_congr : x.scale = y.scale := by rw [scale, exponentField_congr h, scale]

theorem units_congr : x.units = y.units := by rw [units, significand_congr h, scale_congr h, units]

end SameMagnitude

end Double

namespace Decimal

open Double (absolute)

section SameMagnitude

variable (h : x.magnitude = y.magnitude)
include h

theorem interval_congr : Interval.of x = Interval.of y := by
  unfold Interval.of
  rw [Double.scale_congr h, Double.fractionField_congr h, Double.exponentField_congr h, Double.units_congr h,
    Double.significand_congr h]

theorem shortest_congr : shortest x = shortest y := by
  have hgrid : onGrid? x = onGrid? y := by
    unfold onGrid? magnitudeExponent
    rw [interval_congr h, Double.units_congr h]
  have hzero : x.isZero = y.isZero := by rw [Double.isZero, h, Double.isZero]
  rw [shortest, hzero, hgrid, exact, Double.units_congr h]
  rfl

end SameMagnitude

/-- The next greater double has the next fraction, or is a power of two and the fraction starts again. -/
theorem fields_next (h : y.magnitude = x.magnitude + 1) :
    (y.exponentField = x.exponentField ∧ y.fractionField = x.fractionField + 1) ∨
      (y.exponentField = x.exponentField + 1 ∧ y.fractionField = 0 ∧ x.fractionField = 2 ^ 52 - 1) := by
  simp only [Double.exponentField, Double.fractionField]
  omega

/-- The numbers that round to a double end where those begin that round to the next greater one. The number
between them rounds to one of the two. -/
theorem interval_next (h : y.magnitude = x.magnitude + 1) :
    (Interval.of y).lower = (Interval.of x).upper ∧ (Interval.of y).closed = !(Interval.of x).closed := by
  rcases fields_next h with ⟨he, hf⟩ | ⟨he, hf, hlast⟩
  · have hsignificand : y.significand = x.significand + 1 := by
      rw [Double.significand, Double.significand, he, hf]
      split <;> rfl
    have hscale : y.scale = x.scale := by rw [Double.scale, he, Double.scale]
    have hunits : y.units = x.units + 2 ^ x.scale := by
      rw [Double.units, hsignificand, hscale, Nat.succ_mul, Double.units]
    simp only [Interval.of, hunits, hscale, hsignificand, hf, Nat.succ_ne_zero, false_and, if_false]
    grind
  · have hsignificand : y.significand = 2 ^ 52 := by
      rw [Double.significand, he, hf, if_neg (Nat.succ_ne_zero _)]
    cases hx : x.exponentField with
    | zero =>
      -- from the last of the least doubles to the first with a leading one the distance stays
      have hbelow : x.significand = 2 ^ 52 - 1 := by rw [Double.significand, hx, if_pos rfl, hlast]
      simp only [Interval.of, Double.units, Double.scale, he, hx, hf, hsignificand, hbelow]
      decide
    | succ e =>
      have hbelow : x.significand = 2 ^ 52 + (2 ^ 52 - 1) := by
        rw [Double.significand, hx, if_neg (Nat.succ_ne_zero _), hlast]
      have hx' : x.scale = e := by rw [Double.scale, hx, Nat.add_sub_cancel]
      have hy : y.scale = e + 1 := by rw [Double.scale, he, hx, Nat.add_sub_cancel]
      have hexp : 1 < y.exponentField := by omega
      simp only [Interval.of, Double.units, hsignificand, hbelow, hx', hy, hf, hexp, Nat.pow_succ]
      grind

theorem quartersPerOne_pos : (0 : ℚ) < quartersPerOne :=
  Nat.cast_pos.2 (Nat.mul_pos (by decide) Double.unitsPerOne_pos)

theorem absolute_mul (x : Double) : absolute x * quartersPerOne = 4 * x.units := by
  have hone : (Double.unitsPerOne : ℚ) ≠ 0 := Nat.cast_ne_zero.2 (Nat.ne_of_gt Double.unitsPerOne_pos)
  rw [absolute, quartersPerOne, Nat.cast_mul, div_mul_eq_mul_div, div_eq_iff hone]
  push_cast
  ring

/-- A double rounds to itself. -/
theorem covers_absolute (h : x.magnitude ≠ 0) : (Interval.of x).Covers (absolute x) := by
  have hunits : x.units ≠ 0 := fun hc => h (Double.units_eq_zero_iff.1 hc)
  have hstep : 0 < 2 ^ x.scale := Nat.two_pow_pos _
  apply Interval.covers_of_lt
  · rw [absolute_mul]
    have hlower : (Interval.of x).lower < 4 * x.units := by
      simp only [Interval.of]
      split <;> omega
    exact_mod_cast hlower
  · rw [absolute_mul]
    have hupper : 4 * x.units < (Interval.of x).upper := by
      simp only [Interval.of]
      omega
    exact_mod_cast hupper

section Order

variable {q r : ℚ}

theorem lt_of_covers_next (h : y.magnitude = x.magnitude + 1) (hx : (Interval.of x).Covers q)
    (hy : (Interval.of y).Covers r) : q < r := by
  obtain ⟨hmiddle, hclosed⟩ := interval_next h
  refine lt_of_mul_lt_mul_right ?_ quartersPerOne_pos.le
  cases hc : (Interval.of x).closed with
  | false =>
    have hupper : q * quartersPerOne < (Interval.of x).upper := by
      rw [Interval.Covers, hc] at hx
      exact hx.2
    exact hupper.trans_le (hmiddle ▸ hy.lower_le)
  | true =>
    have hlower : ((Interval.of y).lower : ℚ) < r * quartersPerOne := by
      rw [Interval.Covers, hclosed, hc] at hy
      exact hy.1
    exact (hmiddle ▸ hx.le_upper).trans_lt hlower

/-- What rounds to a double is less than what rounds to a greater one. -/
theorem lt_of_covers (h : x.magnitude < y.magnitude) (hx : (Interval.of x).Covers q)
    (hy : (Interval.of y).Covers r) : q < r := by
  obtain ⟨n, hn⟩ := Nat.exists_eq_add_of_lt h
  induction n generalizing y r with
  | zero => exact lt_of_covers_next hn hx hy
  | succ n ih =>
    -- the double just below the greater one lies between
    have hlt : x.magnitude + n + 1 < 2 ^ 63 := by
      have hy := y.magnitude_lt
      omega
    have hz := Double.magnitude_ofMagnitude _ hlt
    have hmiddle := covers_absolute (x := .ofMagnitude false (x.magnitude + n + 1)) (by omega)
    exact (ih (by omega) hmiddle hz).trans (lt_of_covers_next (by omega) hmiddle hy)

/-- A number rounds to one double only, sign apart. -/
theorem magnitude_eq_of_covers (hx : (Interval.of x).Covers q) (hy : (Interval.of y).Covers q) :
    x.magnitude = y.magnitude := by
  rcases Nat.lt_trichotomy x.magnitude y.magnitude with h | h | h
  · exact absurd (lt_of_covers h hx hy) (lt_irrefl q)
  · exact h
  · exact absurd (lt_of_covers h hy hx) (lt_irrefl q)

end Order

/-! ### The shortest decimal -/

theorem covers_onGrid {count : Nat} {d : Decimal} (h : onGrid? x count = some d) : (Interval.of x).Covers d.value := by
  have hhas (n : Nat) (e : Int) (hn : (Interval.of x).has (n * 10 ^ e.toNat) (10 ^ (-e).toNat) = true) :
      (Interval.of x).Covers (value ⟨n, e⟩) := by
    rw [value_eq_div]
    exact (Interval.has_iff _ _ (Nat.pow_pos (by decide))).1 hn
  unfold onGrid? at h
  simp only at h
  split at h
  next hc =>
    cases h
    exact hhas _ _ (Bool.and_eq_true_iff.1 hc).1
  next =>
    split at h
    next hc =>
      cases h
      exact hhas _ _ hc
    next => cases h

theorem value_fives (m n : Nat) : value ⟨m * 5 ^ n, -n⟩ = (m : ℚ) / (2 ^ n : ℕ) := by
  have hten : (10 : ℚ) ^ n = 5 ^ n * 2 ^ n := by
    rw [← mul_pow]
    norm_num
  rw [value, zpow_neg, zpow_natCast, hten]
  push_cast
  field_simp

theorem value_exact (x : Double) : (exact x).value = absolute x := by
  rw [exact, absolute, Double.unitsPerOne]
  exact value_fives x.units 1074

/-- The shortest decimal rounds to the double. -/
theorem covers_shortest (h : x.magnitude ≠ 0) : (Interval.of x).Covers (shortest x).value := by
  have hzero : x.isZero = false := Bool.eq_false_iff.2 fun hc => h (Double.isZero_iff.1 hc)
  rw [shortest, if_neg (by simp [hzero]), value_trimmed]
  cases hsome : (List.range 17).findSome? fun n => onGrid? x (n + 1) with
  | none =>
    rw [Option.getD_none, value_exact]
    exact covers_absolute h
  | some d =>
    obtain ⟨n, -, hgrid⟩ := List.exists_of_findSome?_eq_some hsome
    exact covers_onGrid hgrid

/-- Doubles with the same shortest decimal are the same, sign apart. -/
theorem magnitude_eq_of_positional (hx : x.magnitude ≠ 0) (hy : y.magnitude ≠ 0)
    (h : (shortest x).positional = (shortest y).positional) : x.magnitude = y.magnitude := by
  have hvalue : (shortest x).value = (shortest y).value := by
    rw [← spelled_positional, h, spelled_positional]
  exact magnitude_eq_of_covers (covers_shortest hx) (hvalue ▸ covers_shortest hy)

end Decimal

end ScriptHost.Number
