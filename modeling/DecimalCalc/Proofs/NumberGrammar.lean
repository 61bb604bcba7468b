import DecimalCalc.Proofs.Lexemes
import Mathlib.Computability.Language
import Mathlib.Data.List.DropRight

/-!
# The grammar of number literals

Which texts are number literals is said by a regular language (`NumberLiteral.grammar`), without any
reading. The scan of a text reads the longest prefix that belongs to it (`longest_grammar`): every
word of the language is read to its end wherever it stands (`le_length_of_grammar`), and what is
read is such a word (`take_length_mem`). So scanning never has to give back a character that it
took.
-/

set_option autoImplicit false

namespace DecimalCalc

open scoped Computability

/-! ## Words at the start of a text -/

/-- The longest word of a language that a text starts with. -/
structure Longest (L : Language Char) (text w : List Char) : Prop where
  mem : w ∈ L
  starts : w <+: text
  bound : ∀ v ∈ L, v <+: text → v.length ≤ w.length

/-- A text starts with no word of a language. -/
def StartsNone (L : Language Char) (text : List Char) : Prop := ∀ v ∈ L, ¬v <+: text

theorem Longest.not_startsNone {L : Language Char} {text w : List Char} (h : Longest L text w) :
    ¬StartsNone L text :=
  fun hnone => hnone w h.mem h.starts

/-- There is but one longest word. -/
theorem Longest.unique {L : Language Char} {text w w' : List Char} (h : Longest L text w)
    (h' : Longest L text w') : w = w' :=
  List.IsPrefix.eq_of_length
    (List.prefix_of_prefix_length_le h.starts h'.starts (h'.bound w h.mem h.starts))
    (Nat.le_antisymm (h'.bound w h.mem h.starts) (h.bound w' h'.mem h'.starts))

namespace Text

/-- The single characters of a class. -/
def one (P : Char → Bool) : Language Char := {w | ∃ c, P c = true ∧ w = [c]}

/-- The runs of characters of a class, of one or more. -/
def run (P : Char → Bool) : Language Char := {w | w ≠ [] ∧ ∀ c ∈ w, P c = true}

variable {P : Char → Bool}

theorem singleton_mem_one {c : Char} (hc : P c = true) : [c] ∈ one P := ⟨c, hc, rfl⟩

end Text

namespace NumberLiteral

/-- A digit. -/
def digit : Language Char := Text.one Text.isDigit

/-- Three digits that an underscore marks as a group. -/
def group : Language Char := {['_']} * digit * digit * digit

/-- The integral part: up to three digits, and then more digits and groups. -/
def integral : Language Char := (digit + digit * digit + digit * digit * digit) * (digit + group)∗

/-- The fraction: runs of digits with an underscore between two of them. -/
def fraction : Language Char := Text.run Text.isDigit * ({['_']} * Text.run Text.isDigit)∗

/-- **The number literals**: an integral part, and perhaps a point with or without a fraction; or a
point with a fraction. -/
def grammar : Language Char :=
  integral * (1 + {['.']} * (1 + fraction)) + {['.']} * fraction

theorem isDigit_point : Text.isDigit '.' = false := by decide

theorem ne_underscore {c : Char} (hc : Text.isDigit c = true) : c ≠ '_' := by
  rintro rfl
  exact absurd hc (by decide)

theorem ne_point {c : Char} (hc : Text.isDigit c = true) : c ≠ '.' := by
  rintro rfl
  exact absurd hc (by decide)

/-! ## Words of the grammar -/

/-- A word and a row of words are a row of words. -/
theorem append_mem_kstar {L : Language Char} {v w : List Char} (hv : v ∈ L) (hw : w ∈ L∗) :
    v ++ w ∈ L∗ :=
  Set.mem_of_mem_of_subset (Language.append_mem_mul hv hw) (mul_kstar_le_kstar (a := L))

theorem group_mem {a b c : Char} (ha : Text.isDigit a = true) (hb : Text.isDigit b = true)
    (hc : Text.isDigit c = true) : ['_', a, b, c] ∈ group :=
  ⟨_, ⟨_, ⟨_, rfl, _, ⟨a, ha, rfl⟩, rfl⟩, _, ⟨b, hb, rfl⟩, rfl⟩, _, ⟨c, hc, rfl⟩, rfl⟩

theorem exists_of_mem_group {w : List Char} (h : w ∈ group) :
    ∃ a b c, (Text.isDigit a && Text.isDigit b && Text.isDigit c) = true ∧ w = ['_', a, b, c] := by
  obtain ⟨_, ⟨_, ⟨_, rfl, _, ⟨a, ha, rfl⟩, rfl⟩, _, ⟨b, hb, rfl⟩, rfl⟩, _, ⟨c, hc, rfl⟩, rfl⟩ := h
  exact ⟨a, b, c, by simp [ha, hb, hc], rfl⟩

/-- Digits and groups are read to their end. -/
theorem integralRest_of_mem {w : List Char} (h : w ∈ (digit + group)∗) (x : List Char) :
    integralRest (w ++ x) = w.length + integralRest x := by
  obtain ⟨parts, rfl, hparts⟩ := Language.mem_kstar.mp h
  clear h
  induction parts with
  | nil => simp
  | cons part parts ih =>
      have hrest := ih fun p hp => hparts p (List.mem_cons_of_mem _ hp)
      rw [List.flatten_cons, List.append_assoc, List.length_append]
      rcases hparts part List.mem_cons_self with ⟨c, hc, rfl⟩ | hgroup
      · rw [List.singleton_append, integralRest_cons (ne_underscore hc), if_pos hc, hrest,
          List.length_singleton]
        omega
      · obtain ⟨a, b, c, hdigits, rfl⟩ := exists_of_mem_group hgroup
        simp only [List.cons_append, List.nil_append, integralRest, hdigits, if_true, hrest,
          List.length_cons, List.length_nil]
        omega

/-- An integral part starts with a digit, after which it is read to its end. -/
theorem exists_of_mem_integral {w : List Char} (h : w ∈ integral) :
    ∃ d rest, w = d :: rest ∧ Text.isDigit d = true ∧
      ∀ x, integralRest (rest ++ x) = rest.length + integralRest x := by
  obtain ⟨first, hfirst, more, hmore, rfl⟩ := h
  have hread := integralRest_of_mem hmore
  have hdigit : ∀ {c : Char}, Text.isDigit c = true → [c] ∈ digit + group :=
    fun hc => .inl (Text.singleton_mem_one hc)
  rcases hfirst with (⟨a, ha, rfl⟩ | ⟨_, ⟨a, ha, rfl⟩, _, ⟨b, hb, rfl⟩, rfl⟩) |
    ⟨_, ⟨_, ⟨a, ha, rfl⟩, _, ⟨b, hb, rfl⟩, rfl⟩, _, ⟨c, hc, rfl⟩, rfl⟩
  · exact ⟨a, more, rfl, ha, hread⟩
  · exact ⟨a, b :: more, rfl, ha, integralRest_of_mem (append_mem_kstar (hdigit hb) hmore)⟩
  · exact ⟨a, b :: c :: more, rfl, ha, integralRest_of_mem
      (append_mem_kstar (hdigit hb) (append_mem_kstar (hdigit hc) hmore))⟩

theorem fractionRest_of_digits {w : List Char} (h : ∀ c ∈ w, Text.isDigit c = true)
    (x : List Char) : fractionRest (w ++ x) = w.length + fractionRest x := by
  induction w with
  | nil => simp
  | cons c w ih =>
      have hc : Text.isDigit c = true := h c List.mem_cons_self
      rw [List.cons_append, fractionRest_cons (ne_underscore hc), if_pos hc,
        ih fun d hd => h d (List.mem_cons_of_mem c hd), List.length_cons]
      omega

/-- Runs of digits with underscores before them are read to their end. -/
theorem fractionRest_of_mem {w : List Char}
    (h : w ∈ ({['_']} * Text.run Text.isDigit : Language _)∗) (x : List Char) :
    fractionRest (w ++ x) = w.length + fractionRest x := by
  obtain ⟨parts, rfl, hparts⟩ := Language.mem_kstar.mp h
  clear h
  induction parts with
  | nil => simp
  | cons part parts ih =>
      have hrest := ih fun p hp => hparts p (List.mem_cons_of_mem _ hp)
      obtain ⟨_, rfl, digits, ⟨hne, hdigits⟩, rfl⟩ := hparts part List.mem_cons_self
      cases digits with
      | nil => exact absurd rfl hne
      | cons d digits =>
          have hd : Text.isDigit d = true := hdigits d List.mem_cons_self
          have hmore := fractionRest_of_digits (fun c hc => hdigits c (List.mem_cons_of_mem d hc))
            (parts.flatten ++ x)
          simp only [List.flatten_cons, List.append_assoc, List.cons_append, List.nil_append,
            fractionRest, hd, if_true, hmore, hrest, List.length_cons, List.length_append]
          omega

/-- A fraction is read to its end. -/
theorem le_fractionLength_of_mem {w : List Char} (h : w ∈ fraction) (x : List Char) :
    w.length ≤ fractionLength (w ++ x) := by
  obtain ⟨digits, ⟨hne, hdigits⟩, more, hmore, rfl⟩ := h
  cases digits with
  | nil => exact absurd rfl hne
  | cons d digits =>
      have hd : Text.isDigit d = true := hdigits d List.mem_cons_self
      have hread : fractionRest (digits ++ (more ++ x)) =
          digits.length + (more.length + fractionRest x) := by
        rw [fractionRest_of_digits fun c hc => hdigits c (List.mem_cons_of_mem d hc),
          fractionRest_of_mem hmore]
      simp only [List.cons_append, List.append_assoc, fractionLength, hd, if_true, hread,
        List.length_cons, List.length_append]
      omega

theorem fraction_ne_nil {w : List Char} (h : w ∈ fraction) : w ≠ [] := by
  obtain ⟨digits, ⟨hne, _⟩, more, _, rfl⟩ := h
  simp [hne]

/-- **A number literal is read to its end**, whatever follows it. -/
theorem le_length_of_grammar {w : List Char} (h : w ∈ grammar) (x : List Char) :
    w.length ≤ length (w ++ x) := by
  rcases h with ⟨whole, hwhole, tail, htail, rfl⟩ | ⟨_, rfl, digits, hdigits, rfl⟩
  · obtain ⟨d, rest, rfl, hd, hread⟩ := exists_of_mem_integral hwhole
    have hlength : ∀ y, length ((d :: rest) ++ y) = 1 + (rest.length + integralRest y) +
        pointLength (y.drop (integralRest y)) := by
      intro y
      have hdrop : ((d :: rest) ++ y).drop (1 + (rest.length + integralRest y)) =
          y.drop (integralRest y) := by
        have hsum : 1 + (rest.length + integralRest y) =
            (d :: rest).length + integralRest y := by
          rw [List.length_cons]
          omega
        rw [hsum, List.drop_length_add_append]
      rw [← hdrop, List.cons_append, length_cons (ne_point hd), if_pos hd, hread]
    rw [List.append_assoc, hlength]
    rcases htail with rfl | ⟨_, rfl, digits, hdigits, rfl⟩
    · -- the literal ends with its integral part
      simp only [List.length_append, List.length_cons, List.length_nil]
      omega
    · -- the integral part ends before the point
      have hpoint : integralRest ('.' :: (digits ++ x)) = 0 := by
        rw [integralRest_cons (by decide), isDigit_point]
        rfl
      have hfraction : digits.length ≤ fractionLength (digits ++ x) := by
        rcases hdigits with rfl | hdigits
        · exact Nat.zero_le _
        · exact le_fractionLength_of_mem hdigits x
      simp only [List.cons_append, List.nil_append, hpoint, List.drop_zero, pointLength,
        List.length_append, List.length_cons]
      omega
  · have hfraction := le_fractionLength_of_mem hdigits x
    have hne : fractionLength (digits ++ x) ≠ 0 := by
      have hpos := List.length_pos_of_ne_nil (fraction_ne_nil hdigits)
      omega
    simp only [List.cons_append, List.nil_append, length, if_neg hne, List.length_cons]
    omega

/-! ## What is read -/

theorem take_integralRest_mem (text : List Char) :
    text.take (integralRest text) ∈ (digit + group)∗ := by
  fun_induction integralRest text with
  | case1 a b c rest hdigits ih =>
      simp only [Bool.and_eq_true] at hdigits
      have htake : ('_' :: a :: b :: c :: rest).take (4 + integralRest rest) =
          ['_', a, b, c] ++ rest.take (integralRest rest) := by
        rw [Nat.add_comm]
        rfl
      rw [htake]
      exact append_mem_kstar (.inr (group_mem hdigits.1.1 hdigits.1.2 hdigits.2)) ih
  | case3 c rest hgroup hdigit ih =>
      rw [Nat.add_comm, List.take_succ_cons, ← List.singleton_append]
      exact append_mem_kstar (.inl (Text.singleton_mem_one hdigit)) ih
  | _ => exact Language.nil_mem_kstar _

/-- What is read of the fraction after a digit: digits that go on its first run, and further runs.
-/
theorem take_fractionRest_eq (text : List Char) :
    ∃ digits more, text.take (fractionRest text) = digits ++ more ∧
      (∀ c ∈ digits, Text.isDigit c = true) ∧
      more ∈ ({['_']} * Text.run Text.isDigit : Language _)∗ := by
  fun_induction fractionRest text with
  | case1 d rest hdigit ih =>
      obtain ⟨digits, more, htake, hdigits, hmore⟩ := ih
      refine ⟨[], '_' :: d :: (digits ++ more), ?_, by simp, ?_⟩
      · rw [Nat.add_comm, List.take_succ_cons, List.take_succ_cons, htake]
        rfl
      · have hrun : '_' :: d :: digits ∈ ({['_']} * Text.run Text.isDigit : Language _) := by
          refine Language.append_mem_mul (a := ['_']) rfl ⟨List.cons_ne_nil d digits, ?_⟩
          intro c hc
          rcases List.mem_cons.mp hc with rfl | hc
          · exact hdigit
          · exact hdigits c hc
        exact append_mem_kstar hrun hmore
  | case3 c rest hunderscore hdigit ih =>
      obtain ⟨digits, more, htake, hdigits, hmore⟩ := ih
      refine ⟨c :: digits, more, ?_, ?_, hmore⟩
      · rw [Nat.add_comm, List.take_succ_cons, htake, List.cons_append]
      · intro e he
        rcases List.mem_cons.mp he with rfl | he
        · exact hdigit
        · exact hdigits e he
  | _ => exact ⟨[], [], rfl, by simp, Language.nil_mem_kstar _⟩

theorem take_fractionLength_mem {text : List Char} (h : fractionLength text ≠ 0) :
    text.take (fractionLength text) ∈ fraction := by
  cases text with
  | nil => exact absurd rfl h
  | cons d rest =>
      rw [fractionLength] at h ⊢
      split_ifs at h ⊢ with hd
      · obtain ⟨digits, more, htake, hdigits, hmore⟩ := take_fractionRest_eq rest
        rw [Nat.add_comm, List.take_succ_cons, htake, ← List.cons_append]
        refine Language.append_mem_mul ⟨List.cons_ne_nil d digits, fun c hc => ?_⟩ hmore
        rcases List.mem_cons.mp hc with rfl | hc
        · exact hd
        · exact hdigits c hc
      · exact absurd rfl h

theorem take_pointLength_mem (text : List Char) :
    text.take (pointLength text) ∈ (1 + {['.']} * (1 + fraction) : Language Char) := by
  rw [pointLength.eq_def]
  split
  · rename_i rest
    rw [Nat.add_comm, List.take_succ_cons]
    refine .inr (Language.append_mem_mul (a := ['.']) rfl ?_)
    by_cases h : fractionLength rest = 0
    · rw [h]
      exact .inl rfl
    · exact .inr (take_fractionLength_mem h)
  · exact .inl rfl

/-- **What is read is a number literal.** -/
theorem take_length_mem {text : List Char} (h : length text ≠ 0) :
    text.take (length text) ∈ grammar := by
  cases text with
  | nil => exact absurd rfl h
  | cons c rest =>
      by_cases hpoint : c = '.'
      · subst hpoint
        rw [length] at h ⊢
        split_ifs at h ⊢ with hfraction
        · exact absurd rfl h
        · rw [Nat.add_comm, List.take_succ_cons]
          exact .inr (Language.append_mem_mul (a := ['.']) rfl (take_fractionLength_mem hfraction))
      · rw [length_cons hpoint] at h ⊢
        split_ifs at h ⊢ with hc
        · rw [List.take_add]
          refine .inl (Language.append_mem_mul ?_ (take_pointLength_mem _))
          rw [Nat.add_comm, List.take_succ_cons, ← List.singleton_append]
          exact Language.append_mem_mul (.inl (.inl (Text.singleton_mem_one hc)))
            (take_integralRest_mem rest)
        · exact absurd rfl h

theorem grammar_ne_nil {w : List Char} (h : w ∈ grammar) : w ≠ [] := by
  rcases h with ⟨whole, hwhole, tail, _, rfl⟩ | ⟨_, rfl, digits, _, rfl⟩
  · obtain ⟨d, rest, rfl, _⟩ := exists_of_mem_integral hwhole
    simp
  · simp

/-- **A text starts with the number literal that is read**, and with no longer one. -/
theorem longest_grammar {text : List Char} (h : length text ≠ 0) :
    Longest grammar text (text.take (length text)) := by
  refine ⟨take_length_mem h, List.take_prefix _ _, ?_⟩
  rintro v hv ⟨x, rfl⟩
  rw [List.length_take, Nat.min_eq_left (length_le _)]
  exact le_length_of_grammar hv x

theorem startsNone_grammar {text : List Char} (h : length text = 0) :
    StartsNone grammar text := by
  rintro v hv ⟨x, rfl⟩
  have hle := le_length_of_grammar hv x
  have hpos := List.length_pos_of_ne_nil (grammar_ne_nil hv)
  omega

/-! ## Characters of a literal -/

section Characters

variable {L M : Language Char} {P : Char → Prop}

theorem forall_mem_mul (hL : ∀ w ∈ L, ∀ c ∈ w, P c) (hM : ∀ w ∈ M, ∀ c ∈ w, P c) :
    ∀ w ∈ L * M, ∀ c ∈ w, P c := by
  rintro _ ⟨v, hv, w, hw, rfl⟩ c hc
  exact (List.mem_append.mp hc).elim (hL v hv c) (hM w hw c)

theorem forall_mem_add (hL : ∀ w ∈ L, ∀ c ∈ w, P c) (hM : ∀ w ∈ M, ∀ c ∈ w, P c) :
    ∀ w ∈ L + M, ∀ c ∈ w, P c :=
  fun w hw => hw.elim (hL w) (hM w)

theorem forall_mem_kstar (hL : ∀ w ∈ L, ∀ c ∈ w, P c) : ∀ w ∈ L∗, ∀ c ∈ w, P c := by
  rintro _ ⟨parts, rfl, hparts⟩ c hc
  obtain ⟨part, hpart, hc⟩ := List.mem_flatten.mp hc
  exact hL part (hparts part hpart) c hc

end Characters

theorem mem_integral_chars : ∀ w ∈ integral, ∀ c ∈ w, Text.isDigit c = true ∨ c = '_' := by
  have hdigit : ∀ w ∈ digit, ∀ c ∈ w, Text.isDigit c = true ∨ c = '_' := by
    rintro _ ⟨d, hd, rfl⟩ c hc
    obtain rfl := List.mem_singleton.mp hc
    exact .inl hd
  have hunderscore : ∀ w ∈ ({['_']} : Language Char), ∀ c ∈ w, Text.isDigit c = true ∨ c = '_' := by
    rintro _ rfl c hc
    exact .inr (List.mem_singleton.mp hc)
  refine forall_mem_mul (forall_mem_add (forall_mem_add hdigit (forall_mem_mul hdigit hdigit))
    (forall_mem_mul (forall_mem_mul hdigit hdigit) hdigit)) (forall_mem_kstar ?_)
  exact forall_mem_add hdigit
    (forall_mem_mul (forall_mem_mul (forall_mem_mul hunderscore hdigit) hdigit) hdigit)

theorem mem_fraction_chars : ∀ w ∈ fraction, ∀ c ∈ w, Text.isDigit c = true ∨ c = '_' := by
  have hrun : ∀ w ∈ Text.run Text.isDigit, ∀ c ∈ w, Text.isDigit c = true ∨ c = '_' :=
    fun w hw c hc => .inl (hw.2 c hc)
  refine forall_mem_mul hrun (forall_mem_kstar (forall_mem_mul ?_ hrun))
  rintro _ rfl c hc
  exact .inr (List.mem_singleton.mp hc)

/-- A number literal is made of digits, underscores and points. -/
theorem mem_grammar_chars : ∀ w ∈ grammar, ∀ c ∈ w,
    (Text.isDigit c = true ∨ c = '_') ∨ c = '.' := by
  have hpoint : ∀ w ∈ ({['.']} : Language Char), ∀ c ∈ w,
      (Text.isDigit c = true ∨ c = '_') ∨ c = '.' := by
    rintro _ rfl c hc
    exact .inr (List.mem_singleton.mp hc)
  have hempty : ∀ w ∈ (1 : Language Char), ∀ c ∈ w,
      (Text.isDigit c = true ∨ c = '_') ∨ c = '.' := by
    rintro _ rfl c hc
    cases hc
  have hintegral := fun w hw c hc => Or.inl (b := c = '.') (mem_integral_chars w hw c hc)
  have hfraction := fun w hw c hc => Or.inl (b := c = '.') (mem_fraction_chars w hw c hc)
  exact forall_mem_add (forall_mem_mul hintegral (forall_mem_add hempty
    (forall_mem_mul hpoint (forall_mem_add hempty hfraction)))) (forall_mem_mul hpoint hfraction)

/-! ## Canonical literals -/

/-- Digits and underscores with a digit in front are a run of digits without the underscores. -/
theorem filter_mem_run {d : Char} {rest : List Char} (hd : Text.isDigit d = true)
    (hrest : ∀ c ∈ d :: rest, Text.isDigit c = true ∨ c = '_') :
    (d :: rest).filter (· ≠ '_') ∈ Text.run Text.isDigit := by
  refine ⟨?_, fun c hc => ?_⟩
  · rw [List.filter_cons_of_pos (by simpa using ne_underscore hd)]
    exact List.cons_ne_nil _ _
  · obtain ⟨hmem, hne⟩ := List.mem_filter.mp hc
    exact (hrest c hmem).resolve_right (by simpa using hne)

theorem filter_integral {w : List Char} (h : w ∈ integral) :
    w.filter (· ≠ '_') ∈ Text.run Text.isDigit := by
  have hchars := mem_integral_chars w h
  obtain ⟨d, rest, rfl, hd, _⟩ := exists_of_mem_integral h
  exact filter_mem_run hd hchars

theorem filter_fraction {w : List Char} (h : w ∈ fraction) :
    w.filter (· ≠ '_') ∈ Text.run Text.isDigit := by
  have hchars := mem_fraction_chars w h
  obtain ⟨digits, ⟨hne, hdigits⟩, more, _, rfl⟩ := h
  cases digits with
  | nil => exact absurd rfl hne
  | cons d digits => exact filter_mem_run (hdigits d List.mem_cons_self) hchars

/-- A canonical text has no points at its end. -/
theorem canonical_eq (text : List Char) :
    canonical text = (withLeadingZero (text.filter (· ≠ '_'))).rdropWhile (· = '.') := rfl

theorem withLeadingZero_of_ne {text : List Char} (h : '.' ∉ text.head?) :
    withLeadingZero text = text := by
  rw [withLeadingZero.eq_def]
  split
  · exact absurd rfl h
  · rfl

theorem head?_withLeadingZero (text : List Char) : '.' ∉ (withLeadingZero text).head? := by
  rw [withLeadingZero.eq_def]
  split
  · simp
  · rename_i h
    cases text with
    | nil => simp
    | cons c rest =>
        rw [List.head?_cons, Option.mem_some]
        rintro rfl
        exact h rest rfl

/-- **A canonical text is its own canonical text.** -/
theorem canonical_canonical (text : List Char) : canonical (canonical text) = canonical text := by
  have hstarts : canonical text <+: withLeadingZero (text.filter (· ≠ '_')) :=
    List.rdropWhile_prefix _ _
  have hfilter : (canonical text).filter (· ≠ '_') = canonical text := by
    refine List.filter_eq_self.mpr fun c hc => ?_
    have hmem := hstarts.subset hc
    rw [withLeadingZero.eq_def] at hmem
    split at hmem
    · rename_i heq
      rcases List.mem_cons.mp hmem with rfl | hmem
      · decide
      · rw [← heq] at hmem
        exact (List.mem_filter.mp hmem).2
    · exact (List.mem_filter.mp hmem).2
  have hhead : '.' ∉ (canonical text).head? := by
    obtain ⟨cut, hcut⟩ := hstarts
    intro hpoint
    refine head?_withLeadingZero (text.filter (· ≠ '_')) ?_
    rw [← hcut, List.head?_append, Option.mem_def.mp hpoint]
    rfl
  rw [canonical_eq (canonical text), hfilter, withLeadingZero_of_ne hhead, canonical_eq,
    List.rdropWhile_idempotent]

/-- Text that ends with a digit has no points at its end. -/
theorem rdropWhile_append_run {w digits : List Char} (h : digits ∈ Text.run Text.isDigit) :
    (w ++ digits).rdropWhile (· = '.') = w ++ digits := by
  refine List.rdropWhile_eq_self_iff.mpr fun hne => ?_
  rw [List.getLast_append_of_ne_nil hne h.1, decide_eq_true_eq]
  exact ne_point (h.2 _ (List.getLast_mem h.1))

/-- **The canonical text of a literal** is a run of digits, or two with a point between them. -/
theorem canonical_cases {w : List Char} (h : w ∈ grammar) :
    ∃ whole ∈ Text.run Text.isDigit, canonical w = whole ∨
      ∃ digits ∈ Text.run Text.isDigit, canonical w = whole ++ '.' :: digits := by
  have hhead : ∀ {digits : List Char} (x : List Char), digits ∈ Text.run Text.isDigit →
      '.' ∉ (digits ++ x).head? := by
    intro digits x hdigits
    cases digits with
    | nil => exact absurd rfl hdigits.1
    | cons d digits =>
        rw [List.cons_append, List.head?_cons, Option.mem_some]
        exact ne_point (hdigits.2 d List.mem_cons_self)
  -- a literal has digits before its point, or begins with it
  rcases h with ⟨whole, hwhole, tail, htail, rfl⟩ | ⟨_, rfl, digits, hdigits, rfl⟩
  · have hfilter := filter_integral hwhole
    refine ⟨_, hfilter, ?_⟩
    rw [canonical_eq, List.filter_append, withLeadingZero_of_ne (hhead _ hfilter)]
    rcases htail with rfl | ⟨_, rfl, digits, rfl | hdigits, rfl⟩
    · left
      simpa using rdropWhile_append_run (w := []) hfilter
    · left
      have hpoint : (['.'] ++ [] : List Char).filter (· ≠ '_') = ['.'] := by decide
      rw [hpoint, List.rdropWhile_concat_pos _ _ _ (by decide)]
      simpa using rdropWhile_append_run (w := []) hfilter
    · right
      refine ⟨_, filter_fraction hdigits, ?_⟩
      rw [List.filter_append, ← List.append_assoc, rdropWhile_append_run (filter_fraction hdigits)]
      simp
  · have hrun : ['0'] ∈ Text.run Text.isDigit :=
      ⟨List.cons_ne_nil _ _, List.forall_mem_singleton.mpr (by decide)⟩
    refine ⟨['0'], hrun, .inr ⟨_, filter_fraction hdigits, ?_⟩⟩
    have hzero : withLeadingZero ((['.'] ++ digits).filter (· ≠ '_')) =
        ['0', '.'] ++ digits.filter (· ≠ '_') := by
      rw [List.filter_append]
      rfl
    rw [canonical_eq, hzero, rdropWhile_append_run (filter_fraction hdigits)]
    rfl

theorem run_le_integral {w : List Char} (h : w ∈ Text.run Text.isDigit) : w ∈ integral := by
  obtain ⟨hne, hdigits⟩ := h
  cases w with
  | nil => exact absurd rfl hne
  | cons d rest =>
      have hrest : rest = (rest.map fun c => [c]).flatten := (List.flatMap_singleton' rest).symm
      refine Language.append_mem_mul (a := [d])
        (.inl (.inl (Text.singleton_mem_one (hdigits d List.mem_cons_self)))) ?_
      rw [hrest]
      refine Language.join_mem_kstar fun part hpart => ?_
      obtain ⟨c, hc, rfl⟩ := List.mem_map.mp hpart
      exact .inl (Text.singleton_mem_one (hdigits c (List.mem_cons_of_mem d hc)))

theorem run_mem_grammar {whole : List Char} (h : whole ∈ Text.run Text.isDigit) :
    whole ∈ grammar := by
  rw [← List.append_nil whole]
  exact .inl (Language.append_mem_mul (run_le_integral h) (.inl rfl))

theorem point_mem_grammar {whole digits : List Char} (hwhole : whole ∈ Text.run Text.isDigit)
    (hdigits : digits ∈ Text.run Text.isDigit) : whole ++ '.' :: digits ∈ grammar := by
  refine .inl (Language.append_mem_mul (run_le_integral hwhole) (.inr ?_))
  refine Language.append_mem_mul (a := ['.']) rfl (.inr ?_)
  rw [← List.append_nil digits]
  exact Language.append_mem_mul hdigits (Language.nil_mem_kstar _)

/-- **The canonical text of a literal is a literal.** -/
theorem canonical_mem {w : List Char} (h : w ∈ grammar) : canonical w ∈ grammar := by
  obtain ⟨whole, hwhole, heq | ⟨digits, hdigits, heq⟩⟩ := canonical_cases h
  · rw [heq]
    exact run_mem_grammar hwhole
  · rw [heq]
    exact point_mem_grammar hwhole hdigits

end NumberLiteral

end DecimalCalc
