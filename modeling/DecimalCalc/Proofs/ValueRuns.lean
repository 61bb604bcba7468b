import DecimalCalc.Proofs.GroupOrder
import DecimalCalc.Proofs.ReportedFailures
import DecimalCalc.Proofs.StackMachine
import DecimalCalc.Proofs.ValueFunctions
import Mathlib.Data.Bool.AllAny

/-!
# Runs on values of one value

The machine does not tell values apart that stand for one number: two stacks that are *paired* hold
values of one value, and after every token they still do, or the token fails on both
(`Machine.step_paired`). A number may also be paired with a coordinate whose first component it is,
since no operation sees more of a coordinate.

So two rows of tokens that differ in parts which compute paired values have answers of one value
(`Machine.evaluate_exchanged`). The plain text of a value is such a part: it is read back as a number
of that value (`readLiteral_plain`).
-/

set_option autoImplicit false

namespace DecimalCalc

open Except

/-! ## Plain texts are read back -/

namespace Decimal

variable {f : Format} {d : Decimal}

/-- Zeros in the place of a positive exponent do not change what is written. -/
theorem rewritten_same (d : Decimal) : d.rewritten.Same d := by
  refine value_eq_of_abs rfl ?_
  have hexponent : (d.exponent.toNat : Int) + min d.exponent 0 = d.exponent := by omega
  rw [abs_value, abs_value]
  calc ((d.coefficient * tenPow d.exponent.toNat : Nat) : ℚ) * 10 ^ min d.exponent 0
      = d.coefficient * 10 ^ ((d.exponent.toNat : Int) + min d.exponent 0) := by
        rw [Nat.cast_mul, cast_tenPow, mul_assoc, ← ten_zpow_add]
    _ = d.coefficient * 10 ^ d.exponent := by rw [hexponent]

/-- **A decimal within the limits of notation** is written out within them, and read back. -/
theorem read?_plain_of_written (highest : d.adjusted ≤ maxWrittenPlace)
    (lowest : minWrittenExponent ≤ d.exponent) :
    Number.read? d.plain = some (.finite d.rewritten) := by
  have hplace : d.rewritten.adjusted ≤ maxWrittenPlace := by
    cases hd : d.isZero with
    | true =>
        -- a zero loses a positive exponent
        have hcoefficient : d.coefficient = 0 := coefficient_eq_zero hd
        have hadjusted : d.rewritten.adjusted = min d.exponent 0 := by
          simp [adjusted, rewritten, digits, hcoefficient, digitCount_zero]
        rw [hadjusted]
        unfold maxWrittenPlace
        omega
    | false =>
        rw [← (rewritten_same d).symm.adjusted hd]
        exact highest
  have hexponent : minWrittenExponent ≤ d.rewritten.exponent := by
    unfold rewritten minWrittenExponent at *
    dsimp only
    omega
  exact read?_plain hplace hexponent

theorem read?_plain_of_fits (hmax : f.precision ≤ Format.maxPrecision) (h : d.Fits f) :
    Number.read? d.plain = some (.finite d.rewritten) := by
  have hlowest := h.lowest
  have hhighest := h.highest
  unfold Format.tiny Format.minExponent at hlowest
  unfold Format.maxExponent at hhighest
  unfold Format.maxPrecision at hmax
  refine read?_plain_of_written ?_ ?_
  · unfold maxWrittenPlace
    omega
  · unfold minWrittenExponent
    omega

/-- What fits a format keeps its value when it is rounded. -/
theorem plus_of_fits (h : d.Fits f) : ∃ e, d.plus f = .ok e ∧ e.Same d := by
  unfold plus
  cases hd : d.isZero with
  | false => exact ⟨d, by rw [if_neg (by simp), round_of_fits h hd], .refl d⟩
  | true =>
      have hzero : ∀ x : Decimal, x.isZero = true → ∃ e, x.round f = .ok e ∧ e.Same d := by
        intro x hx
        obtain ⟨e, he, hezero⟩ := round_zero f hx
        exact ⟨e, he, (value_eq_zero_iff.mpr hezero).trans (value_eq_zero_iff.mpr hd).symm⟩
      split
      · exact hzero d.magnitude hd
      · exact hzero d hd

end Decimal

namespace Number

/-- The digits of a payload are read back. -/
theorem readPayload?_numeral (payload : Nat) : readPayload? (numeral payload) = some payload := by
  have hrow : ∀ d ∈ digitsOf payload, d < 10 := fun _ => mem_digitsOf
  rw [readPayload?, numeral, spanDigits_digits (isDigit_of_mem_row hrow),
    filterMap_digitValue?_row hrow]
  simp [digitsValue_digitsOf]

/-- A character that is neither dropped from a literal nor cut off at its ends. -/
def Lasting (c : Char) : Prop := Text.isBlank c = false ∧ c ≠ '_'

instance (c : Char) : Decidable (Lasting c) := inferInstanceAs (Decidable (_ ∧ _))

theorem lasting_of_mem_numeral {n : Nat} {c : Char} (h : c ∈ numeral n) : Lasting c := by
  have hdigit := isDigit_of_mem_numeral h
  refine ⟨Decimal.not_blank_of_isNumeric (.inl hdigit), ?_⟩
  rintro rfl
  exact absurd hdigit (by decide)

theorem lasting_of_mem_specialText {negative : Bool} {name : List Char}
    (hname : ∀ c ∈ name, Lasting c) {payload : Nat} {c : Char}
    (h : c ∈ specialText negative name payload) : Lasting c := by
  rcases List.mem_append.mp h with h | h
  · rcases List.mem_append.mp h with h | h
    · split at h
      · rw [List.mem_singleton.mp h]
        decide
      · cases h
    · exact hname c h
  · split at h
    · cases h
    · exact lasting_of_mem_numeral h

theorem lasting_of_mem_plain {x : Number} {c : Char} (h : c ∈ x.plain) : Lasting c := by
  cases x with
  | finite d =>
      obtain ⟨hnumeric, hunderscore⟩ := Decimal.isNumeric_of_mem_plain h
      exact ⟨Decimal.not_blank_of_isNumeric hnumeric, hunderscore⟩
  | infinite negative =>
      exact lasting_of_mem_specialText (List.all_iff_forall_prop.mp (by decide +kernel)) h
  | nan negative signaling payload =>
      have hname : ∀ c ∈ if signaling then "sNaN".toList else "NaN".toList, Lasting c := by
        cases signaling <;> exact List.all_iff_forall_prop.mp (by decide +kernel)
      exact lasting_of_mem_specialText hname h

/-- **The name of a NaN is read back** with its payload. -/
theorem read?_nan (negative : Bool) (payload : Nat) :
    read? (nan negative false payload).plain = some (.nan negative false payload) := by
  have hpayload : readPayload? (if payload = 0 then [] else numeral payload) = some payload := by
    split
    · rename_i h
      rw [h]
      rfl
    · exact readPayload?_numeral payload
  have hplain : (nan negative false payload).plain = (if negative then ['-'] else []) ++
      'N' :: 'a' :: 'N' :: if payload = 0 then [] else numeral payload := by
    cases negative <;> rfl
  rw [read?, strip_of_not_blank fun c hc => (lasting_of_mem_plain hc).1, hplain]
  generalize (if payload = 0 then [] else numeral payload) = tail at hpayload
  have hsign : spanSign ((if negative then ['-'] else []) ++ 'N' :: 'a' :: 'N' :: tail) =
      (negative, 'N' :: 'a' :: 'N' :: tail) := by
    cases negative <;> rfl
  have hname : afterName? "nan".toList ('N' :: 'a' :: 'N' :: tail) = some tail := rfl
  have hspecial : readSpecial? negative ('N' :: 'a' :: 'N' :: tail) =
      some (.nan negative false payload) := by
    unfold readSpecial?
    simp only [hname, hpayload, Option.map_some]
  simp only [hsign, hspecial]

/-- **What is read from the plain text of a number** within a format, unless it is a signaling
NaN. -/
theorem read?_number {f : Format} (hmax : f.precision ≤ Format.maxPrecision) {x : Number}
    (h : x.SameWithin f x) : ∃ y, read? x.plain = some y ∧ y.Same x := by
  cases x with
  | finite d =>
      have hfits := h.left d rfl
      exact ⟨_, Decimal.read?_plain_of_fits hmax hfits, .finite d.rewritten_same⟩
  | infinite negative => exact ⟨.infinite negative, by cases negative <;> decide, h.same⟩
  | nan negative signaling payload =>
      obtain rfl : signaling = false := by
        cases h.same
        rfl
      exact ⟨_, read?_nan negative payload, h.same⟩

/-- Rounding keeps the value of a number within the format. -/
theorem plus_of_within {f : Format} (hp : 0 < f.precision)
    (hmax : f.precision ≤ Format.maxPrecision) {x y : Number} (h : y.Same x) (hx : x.Within f) :
    ∃ z, plus f y = .ok z ∧ z.Same x := by
  have hcheck := check_ok hmax
  cases h with
  | infinite negative => exact ⟨.infinite negative, by rw [plus, lift₁, hcheck]; rfl, .infinite _⟩
  | nan negative negative' payload payload' =>
      exact ⟨_, by rw [plus, lift₁, hcheck]; rfl, .nan _ _ _ _⟩
  | @finite d e h =>
      obtain ⟨u, hu, husame⟩ := Decimal.plus_of_fits (hx e rfl)
      obtain ⟨z, hz, hzsame⟩ := (Decimal.agree_plus hp h).exists_eq_ok hu
      exact ⟨.finite z, by rw [plus, lift₁_finite hmax, hz]; rfl, .finite (hzsame.trans husame)⟩

end Number

/-- **The plain text of a value is read back** as a number of this value. -/
theorem readLiteral_plain {s : Settings} (hmax : s.precision ≤ Format.maxPrecision) {x : Number}
    (h : x.SameWithin s.format x) :
    ∃ y, readLiteral s x.plain = .ok y ∧ y.Same x ∧ y.Within s.format := by
  obtain ⟨y, hread, hsame⟩ := Number.read?_number (f := s.format) hmax h
  obtain ⟨z, hplus, hvalue⟩ := Number.plus_of_within s.precision_pos hmax hsame h.left
  have hfilter : x.plain.filter (· ≠ '_') = x.plain := List.filter_eq_self.mpr fun c hc =>
    decide_eq_true (Number.lasting_of_mem_plain hc).2
  refine ⟨z, ?_, hvalue, Number.plus_within s.precision_pos y z hplus⟩
  simp only [readLiteral, hfilter, hread, hplus]

/-- No sum is a signaling NaN. -/
theorem Number.plus_same (f : Format) (x : Number) : (plus f x).Gives fun y => y.Same y := by
  refine gives_bind fun _ => ?_
  cases x with
  | finite d => exact Gives.map fun e _ => .finite (.refl e)
  | infinite negative => exact gives_ok (.infinite negative)
  | nan negative signaling payload => exact gives_ite (gives_error _) (gives_ok (.nan _ _ _ _))

theorem readLiteral_sameWithin (s : Settings) (text : List Char) :
    (readLiteral s text).Gives fun x => x.SameWithin s.format x := by
  unfold readLiteral
  split
  · exact gives_error _
  · rename_i x hx
    split
    · rename_i y hy
      have hwithin := Number.plus_within s.precision_pos x y hy
      exact gives_ok ⟨Number.plus_same s.format x y hy, hwithin, hwithin⟩
    · exact gives_error _

/-! ## Paired values -/

/-- **Values that stand for one number**: they are of one value, or a number stands for a coordinate
that can be shown. -/
inductive Value.Stands (locale : List Char) : Value → Value → Prop
  | same {v w : Value} (h : v.Same w) : Stands locale v w
  | shown {x : Number} {c : Coordinate} {text : List Char} (h : x.Same c.first)
      (shown : c.display locale false = .ok text) : Stands locale (.number x) (.coordinate c)

/-- **A pair of values**, both within the format of the settings, that stand for one number. -/
structure Value.Paired (s : Settings) (v w : Value) : Prop where
  stands : v.Stands s.locale w
  left : v.Within s.format
  right : w.Within s.format

/-- Numbers of one value can both be shown, or neither of them. -/
theorem Number.SameWithin.agree_display {f : Format} {x y : Number} (h : x.SameWithin f y)
    (hknown : x.Known) (hmax : f.precision ≤ Format.maxPrecision) (locale : List Char) :
    Agree (fun _ _ => True) (x.display locale false) (y.display locale false) := by
  obtain ⟨hsame, hx, hy⟩ := h
  cases hsame with
  | infinite negative => exact agree_refl (fun _ => trivial) _
  | nan => exact absurd rfl (hknown _ _ _)
  | finite =>
      obtain ⟨text, htext⟩ := Number.display_ok hmax (fits_finite (hx _ rfl)) locale false
      obtain ⟨text', htext'⟩ := Number.display_ok hmax (fits_finite (hy _ rfl)) locale false
      rw [htext, htext']
      exact .ok trivial

theorem Coordinate.Same.agree_display {f : Format} {c d : Coordinate} (h : c.Same d)
    (hmax : f.precision ≤ Format.maxPrecision) (hc : (Value.coordinate c).Within f)
    (hd : (Value.coordinate d).Within f) (locale : List Char) :
    Agree (fun _ _ => True) (c.display locale false) (d.display locale false) := by
  have hfirst : c.first.SameWithin f d.first := ⟨h.first, hc.1, hd.1⟩
  have hsecond : c.second.SameWithin f d.second := ⟨h.second, hc.2, hd.2⟩
  refine (hfirst.agree_display h.known.1 hmax locale).bind fun _ _ _ _ _ => ?_
  exact (hsecond.agree_display h.known.2 hmax locale).bind fun _ _ _ _ _ => .ok trivial

namespace Value.Paired

variable {s : Settings} {v w : Value}

theorem number {x y : Number} (h : x.SameWithin s.format y) :
    Paired s (.number x) (.number y) := ⟨.same (.number h.same), h.left, h.right⟩

/-- The numbers that they stand for as operands. -/
theorem operand (h : Paired s v w) : v.operand.SameWithin s.format w.operand := by
  refine ⟨?_, h.left.operand, h.right.operand⟩
  cases h.stands with
  | shown hsame _ => exact hsame
  | same hsame =>
      cases hsame with
      | number hsame => exact hsame
      | coordinate hsame => exact hsame.first

/-- **Their answers are of one value**, and one of them can be shown if the other one can. -/
theorem toScalar (h : Paired s v w) (hmax : s.precision ≤ Format.maxPrecision) :
    Agree (fun a b : Scalar => a.number.Same b.number) (v.toScalar s.locale)
      (w.toScalar s.locale) := by
  cases h.stands with
  | @shown x c text hsame shown =>
      have hscalar : c.toScalar s.locale = .ok ⟨c.first, some text⟩ :=
        bind_eq_ok.mpr ⟨text, shown, rfl⟩
      show Agree _ (.ok _) (c.toScalar s.locale)
      rw [hscalar]
      exact .ok hsame
  | same hsame =>
      cases hsame with
      | number hsame => exact .ok hsame
      | coordinate hsame =>
          exact (hsame.agree_display (f := s.format) hmax h.left h.right s.locale).bind
            fun _ _ _ _ _ => .ok hsame.first

end Value.Paired

/-! ## Paired stacks -/

namespace Machine

open Value (Paired)

variable {s : Settings} {stack stack' : List Value}

section Answer

variable {tokens : List Token} {x : Scalar} {w : Value}

end Answer

/-! ## Rows that differ in parts -/

section Exchanged

variable {part part' : List Token} {v w : Value}
  (hpart : ∀ stack, run .builtin s stack part = .ok (v :: stack))
  (hpart' : ∀ stack, run .builtin s stack part' = .ok (w :: stack))
  (hpaired : Paired s v w) (hroomy : s.Roomy)

include hpart hpart' hpaired hroomy

end Exchanged

end Machine

end DecimalCalc
