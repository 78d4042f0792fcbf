import Mathlib.Logic.Function.Basic
import ScriptHost.Host.Spelling

/-! Host keys as script keys. A key that spells a positive integer in the usual way becomes that
integer and every other key stays a string; the spelling of the script key is the host key again,
so no two host keys share a script key. -/

namespace ScriptHost.Host

open Number

/-! ### Digits -/

theorem digit_value {d : Char} (h : d.isDigit = true) :
    d.toNat - '0'.toNat < 10 ∧ (d.toNat - '0'.toNat).digitChar = d := by
  have hd : 48 ≤ d.toNat ∧ d.toNat ≤ 57 := Char.isDigit_iff_toNat.1 h
  have h48 : '0'.toNat = 48 := rfl
  refine ⟨by omega, Char.toNat_inj.1 ?_⟩
  rw [Nat.toNat_digitChar_of_lt_ten (by omega)]
  omega

/-- Reading digits on from a positive number, and writing the number out again. -/
theorem toDigits_ofDigitChars (cs : List Char) (n : Nat) (hn : 0 < n) (hd : ∀ d ∈ cs, d.isDigit = true) :
    Nat.toDigits 10 (Nat.ofDigitChars 10 cs n) = Nat.toDigits 10 n ++ cs ∧ 0 < Nat.ofDigitChars 10 cs n := by
  induction cs generalizing n with
  | nil => simpa using hn
  | cons c cs ih =>
    obtain ⟨hlt, hc⟩ := digit_value (hd c (by simp))
    rw [Nat.ofDigitChars_cons]
    obtain ⟨hs, hpos⟩ := ih (10 * n + (c.toNat - '0'.toNat)) (by omega) fun d h => hd d (by simp [h])
    refine ⟨?_, hpos⟩
    rw [hs, ← Nat.toDigits_append_toDigits (by omega) hn hlt, Nat.toDigits_of_lt_base hlt, hc]
    simp

/-- Digits without a zero in front are the digits of the number they spell. -/
theorem toDigits_of_canonical (c : Char) (cs : List Char) (h0 : c ≠ '0')
    (hd : ∀ d ∈ c :: cs, d.isDigit = true) :
    Nat.toDigits 10 (Nat.ofDigitChars 10 (c :: cs) 0) = c :: cs ∧ 0 < Nat.ofDigitChars 10 (c :: cs) 0 := by
  obtain ⟨hlt, hc⟩ := digit_value (hd c (by simp))
  have hpos : 0 < c.toNat - '0'.toNat := by
    rcases Nat.eq_zero_or_pos (c.toNat - '0'.toNat) with h | h
    · rw [h] at hc
      exact absurd hc.symm h0
    · exact h
  have h := toDigits_ofDigitChars cs (c.toNat - '0'.toNat) hpos fun d h => hd d (by simp [h])
  rw [Nat.toDigits_of_lt_base hlt, hc] at h
  rw [Nat.ofDigitChars_cons, Nat.mul_zero, Nat.zero_add]
  exact h

/-! ### Script keys -/

theorem sequenceIndex?_eq_some {k : String} {i : Int64} (h : sequenceIndex? k = some i) :
    0 < i.toInt ∧ k = Script.Numeral.integerText i.toInt := by
  unfold sequenceIndex? at h
  split at h
  · cases h
  next c cs hk =>
    split at h
    next hc =>
      simp only [Bool.and_eq_true, bne_iff_ne, ne_eq, List.all_eq_true] at hc
      obtain ⟨hdigits, hpos⟩ := toDigits_of_canonical c cs hc.1 hc.2
      change (if Nat.ofDigitChars 10 (c :: cs) 0 < 2 ^ 63 then
        some (Int64.ofInt (Nat.ofDigitChars 10 (c :: cs) 0)) else none) = some i at h
      split at h
      next hlt =>
        obtain rfl := Option.some.inj h
        have hi : (Int64.ofInt (Nat.ofDigitChars 10 (c :: cs) 0)).toInt = Nat.ofDigitChars 10 (c :: cs) 0 :=
          Int64.toInt_ofInt_of_le (by omega) (by omega)
        have hneg : ¬ ((Nat.ofDigitChars 10 (c :: cs) 0 : Int) < 0) := by omega
        rw [hi]
        refine ⟨by omega, ?_⟩
        rw [Script.Numeral.integerText, if_neg hneg, List.nil_append, Int.natAbs_natCast,
          Decimal.digitChars, hdigits, ← hk, String.ofList_toList]
      · cases h
    · cases h

theorem scriptKey_cases (k : String) :
    scriptKey k = .ofString k ∨
      ∃ i : Int64, 0 < i.toInt ∧ k = Script.Numeral.integerText i.toInt ∧ scriptKey k = .number (.integer i) := by
  unfold scriptKey
  split
  next i h => exact .inr ⟨i, (sequenceIndex?_eq_some h).1, (sequenceIndex?_eq_some h).2, rfl⟩
  · exact .inl rfl

/-- A key is the text of itself where it spells no positive integer. -/
theorem scriptKey_eq_ofString (k : String) : scriptKey k = .ofString k ↔ sequenceIndex? k = none := by
  unfold scriptKey
  split
  next i h => simp [h, Script.Value.ofString]
  next h => simp [h]

theorem fromUTF8?_toUTF8 (s : String) : String.fromUTF8? s.toUTF8 = some s := by
  rw [String.fromUTF8?, String.toUTF8_eq_toByteArray, dif_pos s.isValidUTF8]
  rfl

theorem ofString_of_fromUTF8? {b : ByteArray} {k : String} (h : String.fromUTF8? b = some k) :
    .text b = Script.Value.ofString k := by
  unfold String.fromUTF8? at h
  split at h
  · cases h
    rfl
  · cases h

theorem ofString_injective : Function.Injective Script.Value.ofString := by
  intro k k' h
  have hb : k.toUTF8 = k'.toUTF8 := Script.Value.text.inj h
  have hk := fromUTF8?_toUTF8 k
  rw [hb, fromUTF8?_toUTF8] at hk
  exact (Option.some.inj hk).symm

theorem asKey_ofString (k : String) : (Script.Value.ofString k).asKey = .ofString k := rfl

/-- The spelling of a host key's script key is the host key. -/
@[simp] theorem keySpelling?_scriptKey (k : String) : keySpelling? (scriptKey k) = some k := by
  rcases scriptKey_cases k with h | ⟨i, -, hk, h⟩
  · rw [h]
    exact fromUTF8?_toUTF8 k
  · rw [h, hk]
    rfl

theorem scriptKey_injective : Function.Injective scriptKey := by
  intro k l h
  have := keySpelling?_scriptKey k
  rw [h, keySpelling?_scriptKey] at this
  exact (Option.some.inj this).symm

/-- Script keys of the host are in normal spelling. -/
@[simp] theorem asKey_scriptKey (k : String) : (scriptKey k).asKey = scriptKey k := by
  rcases scriptKey_cases k with h | ⟨i, -, -, h⟩ <;> rw [h] <;> rfl

@[simp] theorem badKey?_scriptKey (k : String) : (scriptKey k).badKey? = none := by
  rcases scriptKey_cases k with h | ⟨i, -, -, h⟩ <;> rw [h] <;> rfl

end ScriptHost.Host
