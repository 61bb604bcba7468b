import DecimalCalc.Proofs.Grammar

/-!
# Counting operands

A row without a surplus is well-formed exactly if its weights add up to one. One direction is the
bound of `Readable.bounded`: from any place on, the weights add up to at most what the open
parentheses may still hold, one more where an operand is expected, and a row that attains the bound
is what the grammar asks for there. So an operand that is missing is never made up for later. In the
other direction what the grammar derives is read without a surplus (`Derives.readsOn`).
-/

set_option autoImplicit false

namespace DecimalCalc

namespace Grammar

variable {registry : Registry}

/-! ## Few operands are as many as the grammar wants -/

/-- How many separators the open parentheses may still hold. -/
def openRooms (rooms : List Nat) : Int := (rooms.map fun n => (n : Int) - 1).sum

@[simp] theorem openRooms_nil : openRooms [] = 0 := rfl

@[simp] theorem openRooms_cons (n : Nat) (rooms : List Nat) :
    openRooms (n :: rooms) = (n : Int) - 1 + openRooms rooms := by
  simp [openRooms]

/-- The tokens go on after any expression, and fill and close the open parentheses. -/
def GoesOn (registry : Registry) : List Nat → List Token → Prop
  | [], w => ∀ e, Derives registry .expression e → Derives registry .expression (e ++ w)
  | n :: rooms, w => ∃ g rest, w = g ++ Token.rightParen :: rest ∧
      (∀ e, Derives registry .expression e → Derives registry (.arguments n) (e ++ g)) ∧
      GoesOn registry rooms rest

/-- The tokens start with an expression, and fill and close the open parentheses. -/
def StartsOff (registry : Registry) : List Nat → List Token → Prop
  | [], w => Derives registry .expression w
  | n :: rooms, w => ∃ g rest, w = g ++ Token.rightParen :: rest ∧
      Derives registry (.arguments n) g ∧ GoesOn registry rooms rest

section

variable {rooms : List Nat} {w : List Token}

theorem GoesOn.startsOff {e : List Token} (he : Derives registry .expression e)
    (h : GoesOn registry rooms w) : StartsOff registry rooms (e ++ w) := by
  cases rooms with
  | nil => exact h e he
  | cons n rooms =>
      obtain ⟨g, rest, rfl, hg, hrest⟩ := h
      exact ⟨e ++ g, rest, by rw [List.append_assoc], hg e he, hrest⟩

/-- A function of one operand before an expression. -/
theorem StartsOff.cons_function {symbol : List Char} {entry : Entry}
    (listed : registry.find? symbol = some entry) (fixity : entry.fixity = .before)
    (arity : entry.arity = 1) (h : StartsOff registry rooms w) :
    StartsOff registry rooms (Token.function symbol :: w) := by
  cases rooms with
  | nil => exact Derives.cons_function listed fixity arity h
  | cons n rooms =>
      -- the function stands before the first of the arguments
      obtain ⟨g, rest, rfl, hg, hrest⟩ := h
      refine ⟨Token.function symbol :: g, rest, rfl, ?_, hrest⟩
      exact Derives.map_first [Token.function symbol]
        (fun e he => Derives.cons_function listed fixity arity he) hg

/-- A parenthesis that makes an operand of its arguments. -/
theorem StartsOff.close {n : Nat} {before : List Token}
    (operand : ∀ g, Derives registry (.arguments n) g →
      Derives registry .operand (before ++ Token.leftParen :: (g ++ [Token.rightParen])))
    (h : StartsOff registry (n :: rooms) w) :
    StartsOff registry rooms (before ++ Token.leftParen :: w) := by
  obtain ⟨g, rest, rfl, hg, hrest⟩ := h
  have hsplit : before ++ Token.leftParen :: (g ++ Token.rightParen :: rest) =
      (before ++ Token.leftParen :: (g ++ [Token.rightParen])) ++ rest := by simp
  rw [hsplit]
  exact hrest.startsOff (.single (operand g hg))

/-- An operator and an expression after an expression. -/
theorem StartsOff.goesOn_between {symbol : List Char} {entry : Entry}
    (listed : registry.find? symbol = some entry) (fixity : entry.fixity = .between)
    (h : StartsOff registry rooms w) :
    GoesOn registry rooms (Token.operator symbol :: w) := by
  cases rooms with
  | nil => exact fun e he => Derives.append_between he listed fixity h
  | cons n rooms =>
      -- the operator joins what comes before with the first of the arguments
      obtain ⟨g, rest, rfl, hg, hrest⟩ := h
      refine ⟨Token.operator symbol :: g, rest, rfl, fun e he => ?_, hrest⟩
      have hsplit : e ++ Token.operator symbol :: g = (e ++ [Token.operator symbol]) ++ g := by simp
      rw [hsplit]
      refine Derives.map_first _ (fun r hr => ?_) hg
      rw [List.append_assoc, List.singleton_append]
      exact Derives.append_between he listed fixity hr

/-- A further argument after an expression. -/
theorem StartsOff.goesOn_separator {n : Nat} (h : StartsOff registry ((n + 1) :: rooms) w) :
    GoesOn registry ((n + 2) :: rooms) (Token.separator :: w) := by
  obtain ⟨g, rest, rfl, hg, hrest⟩ := h
  exact ⟨Token.separator :: g, rest, rfl, fun e he => .more he hg, hrest⟩

theorem GoesOn.after {symbol : List Char} {entry : Entry}
    (listed : registry.find? symbol = some entry) (fixity : entry.fixity = .after)
    (h : GoesOn registry rooms w) : GoesOn registry rooms (Token.operator symbol :: w) := by
  cases rooms with
  | nil =>
      intro e he
      rw [List.append_cons]
      exact h _ (Derives.append_after listed fixity he)
  | cons n rooms =>
      obtain ⟨g, rest, rfl, hg, hrest⟩ := h
      refine ⟨Token.operator symbol :: g, rest, rfl, fun e he => ?_, hrest⟩
      rw [List.append_cons]
      exact hg _ (Derives.append_after listed fixity he)

theorem GoesOn.close (h : GoesOn registry rooms w) :
    GoesOn registry (1 :: rooms) (Token.rightParen :: w) :=
  ⟨[], w, rfl, fun e he => by rw [List.append_nil]; exact .one he, h⟩

end

/-- **The bound that the weights of a row obey** from a place on, where an operand is expected or
not. A row that attains it is what the grammar asks for. -/
def Bounded (registry : Registry) (expected : Bool) (rooms : List Nat) (w : List Token) : Prop :=
  match expected with
  | true => weight registry w ≤ 1 + openRooms rooms ∧
      (weight registry w = 1 + openRooms rooms → StartsOff registry rooms w)
  | false => weight registry w ≤ openRooms rooms ∧
      (weight registry w = openRooms rooms → GoesOn registry rooms w)

section

variable {rooms : List Nat} {w : List Token}

theorem bounded_nil (expected : Bool) : Bounded registry expected [] [] := by
  cases expected with
  | true => exact ⟨by simp, fun h => absurd h (by simp)⟩
  | false => exact ⟨by simp, fun _ e he => by rwa [List.append_nil]⟩

theorem Bounded.atom {t : Token} (atom : t.isAtom = true) (h : Bounded registry false rooms w) :
    Bounded registry true rooms (t :: w) := by
  obtain ⟨hle, heq⟩ := h
  refine ⟨?_, fun h => ?_⟩
  · rw [weight_cons, tokenWeight_atom atom]
    omega
  · rw [weight_cons, tokenWeight_atom atom] at h
    exact (heq (by omega)).startsOff (e := [t]) (.single (.atom atom))

/-- Parentheses, whose arguments are as many as the weight before them is short of. -/
theorem Bounded.arguments {n : Nat} (before : List Token) (hweight : weight registry before = 1 - n)
    (operand : ∀ g, Derives registry (.arguments n) g →
      Derives registry .operand (before ++ Token.leftParen :: (g ++ [Token.rightParen])))
    (h : Bounded registry true (n :: rooms) w) :
    Bounded registry true rooms (before ++ Token.leftParen :: w) := by
  obtain ⟨hle, heq⟩ := h
  rw [openRooms_cons] at hle heq
  have hsum : weight registry (before ++ Token.leftParen :: w) = 1 - n + weight registry w := by
    rw [weight_append, weight_cons, tokenWeight_leftParen, hweight]
    omega
  refine ⟨by omega, fun h => ?_⟩
  exact StartsOff.close operand (heq (by omega))

theorem Bounded.function {symbol : List Char} {entry : Entry}
    (listed : registry.find? symbol = some entry) (fixity : entry.fixity = .before)
    (arity : entry.arity = 1) (h : Bounded registry true rooms w) :
    Bounded registry true rooms (Token.function symbol :: w) := by
  obtain ⟨hle, heq⟩ := h
  have hsum : weight registry (Token.function symbol :: w) = weight registry w := by
    rw [weight_cons, tokenWeight_function listed, arity]
    omega
  refine ⟨by omega, fun h => ?_⟩
  exact StartsOff.cons_function listed fixity arity (heq (by omega))

/-- A token whose operands do not follow in parentheses is short of them for good. -/
theorem Bounded.short {t : Token} (hweight : tokenWeight registry t < 0)
    (h : Bounded registry true rooms w) : Bounded registry true rooms (t :: w) := by
  obtain ⟨hle, _⟩ := h
  have hsum : weight registry (t :: w) = tokenWeight registry t + weight registry w :=
    weight_cons t w
  exact ⟨by omega, fun h => by omega⟩

theorem Bounded.rightParen {n : Nat} (hn : 0 < n) (expected : Bool)
    (h : Bounded registry false rooms w) :
    Bounded registry expected (n :: rooms) (Token.rightParen :: w) := by
  obtain ⟨hle, heq⟩ := h
  have hsum : weight registry (Token.rightParen :: w) = weight registry w := by simp
  cases expected with
  -- an operand is missing before the parenthesis, so the bound is not attained
  | true => exact ⟨by rw [openRooms_cons]; omega, fun h => by rw [openRooms_cons] at h; omega⟩
  -- the bound is attained only where the parenthesis holds all of its arguments
  | false =>
      refine ⟨by rw [openRooms_cons]; omega, fun h => ?_⟩
      rw [openRooms_cons] at h
      obtain rfl : n = 1 := by omega
      exact (heq (by omega)).close

theorem Bounded.separator {n : Nat} (expected : Bool)
    (h : Bounded registry true ((n + 1) :: rooms) w) :
    Bounded registry expected ((n + 2) :: rooms) (Token.separator :: w) := by
  obtain ⟨hle, heq⟩ := h
  rw [openRooms_cons] at hle heq
  push_cast at hle heq
  have hsum : weight registry (Token.separator :: w) = weight registry w := by simp
  have hrooms : openRooms ((n + 2) :: rooms) = n + 1 + openRooms rooms := by
    rw [openRooms_cons]
    push_cast
    omega
  cases expected with
  | true => exact ⟨by omega, fun h => by omega⟩
  | false => exact ⟨by omega, fun h => (heq (by omega)).goesOn_separator⟩

theorem Bounded.between {symbol : List Char} {entry : Entry}
    (listed : registry.find? symbol = some entry) (fixity : entry.fixity = .between)
    (arity : entry.arity = 2) (h : Bounded registry true rooms w) :
    Bounded registry false rooms (Token.operator symbol :: w) := by
  obtain ⟨hle, heq⟩ := h
  have hsum : weight registry (Token.operator symbol :: w) = weight registry w - 1 := by
    rw [weight_cons, tokenWeight_operator listed, arity]
    omega
  exact ⟨by omega, fun h => (heq (by omega)).goesOn_between listed fixity⟩

theorem Bounded.after {symbol : List Char} {entry : Entry}
    (listed : registry.find? symbol = some entry) (fixity : entry.fixity = .after)
    (arity : entry.arity = 1) (h : Bounded registry false rooms w) :
    Bounded registry false rooms (Token.operator symbol :: w) := by
  obtain ⟨hle, heq⟩ := h
  have hsum : weight registry (Token.operator symbol :: w) = weight registry w := by
    rw [weight_cons, tokenWeight_operator listed, arity]
    omega
  exact ⟨by omega, fun h => (heq (by omega)).after listed fixity⟩

end

/-- What a row of tokens from a place on has to be like so that its weights decide. -/
structure Readable (registry : Registry) (p : Place) (w : List Token) : Prop where
  proper : ∀ t ∈ w, Proper registry t
  factorials : FactorialsFollow p.last w
  closes : ∃ p', p.after? registry w = some p' ∧ p'.rooms = []
  rooms : ∀ n ∈ p.rooms, 0 < n

theorem Readable.tail {p p' : Place} {t : Token} {w : List Token}
    (h : Readable registry p (t :: w)) (hnext : p.next? registry t = some p')
    (hlast : p'.last = some t) (hrooms : ∀ n ∈ p'.rooms, 0 < n) : Readable registry p' w := by
  refine ⟨fun u hu => h.proper u (List.mem_cons_of_mem t hu), ?_, ?_, hrooms⟩
  · rw [hlast]
    exact h.factorials.2
  · have hcloses := h.closes
    rw [Place.after?_cons, hnext] at hcloses
    exact hcloses

theorem Readable.next {p : Place} {t : Token} {w : List Token}
    (h : Readable registry p (t :: w)) : ∃ p', p.next? registry t = some p' := by
  obtain ⟨_, hafter, _⟩ := h.closes
  rw [Place.after?_cons] at hafter
  cases hnext : p.next? registry t with
  | none =>
      rw [hnext] at hafter
      cases hafter
  | some p' => exact ⟨p', rfl⟩

/-- The tokens that are read next from a place are bounded: the claim of `Readable.bounded`. -/
def BoundedFrom (registry : Registry) (p : Place) (w : List Token) : Prop :=
  Readable registry p w →
    (w.head? = some Token.leftParen → Token.expectsOperand p.last = true → p.room registry = 1) →
    Bounded registry (Token.expectsOperand p.last) p.rooms w

section

variable {p : Place} {w : List Token}
  (ih : ∀ us : List Token, us.length ≤ w.length → ∀ q, BoundedFrom registry q us)

include ih

/-- A symbol that takes several operands has them in parentheses, or is short of them. -/
theorem bounded_symbol {t : Token} {n : Nat} (hn : 1 < n) (hweight : tokenWeight registry t = 1 - n)
    (operand : ∀ g, Derives registry (.arguments n) g →
      Derives registry .operand (t :: Token.leftParen :: (g ++ [Token.rightParen])))
    (hexpects : Token.expectsOperand p.last = true) (hroom : p.room registry = n)
    (hread : Readable registry p w) : Bounded registry true p.rooms (t :: w) := by
  by_cases hhead : w.head? = some Token.leftParen
  · obtain ⟨us, rfl⟩ : ∃ us, w = Token.leftParen :: us := by
      cases w with
      | nil => cases hhead
      | cons u us => exact ⟨us, by rw [Option.some.inj hhead]⟩
    have hnext : p.next? registry Token.leftParen =
        some ⟨p.last, some Token.leftParen, n :: p.rooms⟩ := by
      rw [Place.next?_leftParen, hexpects, hroom]
      rfl
    have hpos : ∀ m ∈ n :: p.rooms, 0 < m := by
      intro m hm
      rcases List.mem_cons.mp hm with rfl | hm
      · omega
      · exact hread.rooms m hm
    have hargs := ih us (by simp) _ (hread.tail hnext rfl hpos) fun _ _ => rfl
    exact Bounded.arguments [t] (by simp [hweight]) operand hargs
  · -- only one operand follows, and the others are missing
    have hrest := ih w (Nat.le_refl _) p hread fun h => absurd h hhead
    rw [hexpects] at hrest
    exact hrest.short (by omega)

theorem Readable.bounded_atom {t : Token} (atom : t.isAtom = true)
    (hread : Readable registry p (t :: w)) :
    Bounded registry (Token.expectsOperand p.last) p.rooms (t :: w) := by
  obtain ⟨p', hnext⟩ := hread.next
  cases hexpects : Token.expectsOperand p.last with
  | false => simp [Place.next?_atom atom, hexpects] at hnext
  | true =>
      obtain rfl : ⟨p.last, some t, p.rooms⟩ = p' := by
        simpa [Place.next?_atom atom, hexpects] using hnext
      have hrest := ih w (Nat.le_refl _) _ (hread.tail hnext rfl hread.rooms) fun _ h => by
        rw [Token.expectsOperand_atom atom] at h
        cases h
      rw [Token.expectsOperand_atom atom] at hrest
      exact hrest.atom atom

/-- A parenthesis that is no argument list. -/
theorem Readable.bounded_leftParen (hread : Readable registry p (Token.leftParen :: w))
    (hroom : Token.expectsOperand p.last = true → p.room registry = 1) :
    Bounded registry (Token.expectsOperand p.last) p.rooms (Token.leftParen :: w) := by
  obtain ⟨p', hnext⟩ := hread.next
  cases hexpects : Token.expectsOperand p.last with
  | false => simp [Place.next?_leftParen, hexpects] at hnext
  | true =>
      have hone : p.next? registry Token.leftParen =
          some ⟨p.last, some Token.leftParen, 1 :: p.rooms⟩ := by
        rw [Place.next?_leftParen, if_pos hexpects, hroom hexpects]
      have htail := hread.tail hone rfl (by simpa using hread.rooms)
      have hrest := ih w (Nat.le_refl _) _ htail fun _ _ => rfl
      refine Bounded.arguments [] (by simp) (fun g hg => ?_) hrest
      cases hg with
      | one argument => exact .group argument

theorem Readable.bounded_rightParen (hread : Readable registry p (Token.rightParen :: w)) :
    Bounded registry (Token.expectsOperand p.last) p.rooms (Token.rightParen :: w) := by
  obtain ⟨p', hnext⟩ := hread.next
  obtain ⟨n, rooms, hrooms, rfl⟩ := Place.next?_rightParen hnext
  have hpos := hread.rooms
  rw [hrooms] at hpos ⊢
  have htail := hread.tail hnext rfl fun m hm => hpos m (List.mem_cons_of_mem n hm)
  have hrest := ih w (Nat.le_refl _) _ htail fun _ h => by cases h
  exact Bounded.rightParen (hpos n List.mem_cons_self) _ hrest

theorem Readable.bounded_separator (hread : Readable registry p (Token.separator :: w)) :
    Bounded registry (Token.expectsOperand p.last) p.rooms (Token.separator :: w) := by
  obtain ⟨p', hnext⟩ := hread.next
  obtain ⟨n, rooms, hrooms, rfl⟩ := Place.next?_separator hnext
  have hpos := hread.rooms
  rw [hrooms] at hpos ⊢
  have htail := hread.tail hnext rfl fun m hm => by
    rcases List.mem_cons.mp hm with rfl | hm
    · omega
    · exact hpos m (List.mem_cons_of_mem _ hm)
  have hrest := ih w (Nat.le_refl _) _ htail fun _ _ => rfl
  exact Bounded.separator _ hrest

theorem Readable.bounded_function {symbol : List Char} {entry : Entry}
    (listed : registry.find? symbol = some entry) (fixity : entry.fixity = .before)
    (arity : 0 < entry.arity) (hread : Readable registry p (Token.function symbol :: w)) :
    Bounded registry (Token.expectsOperand p.last) p.rooms (Token.function symbol :: w) := by
  obtain ⟨p', hnext⟩ := hread.next
  cases hexpects : Token.expectsOperand p.last with
  | false => simp [Place.next?_function, hexpects] at hnext
  | true =>
      obtain rfl : ⟨p.last, some (Token.function symbol), p.rooms⟩ = p' := by
        simpa [Place.next?_function, hexpects] using hnext
      have htail := hread.tail hnext rfl hread.rooms
      have hroom : Place.room registry ⟨p.last, some (Token.function symbol), p.rooms⟩ =
          entry.arity := by simp [Place.room, Token.function, listed]
      -- with one operand the function needs no parentheses of its own
      by_cases hone : entry.arity = 1
      · have hrest := ih w (Nat.le_refl _) _ htail fun _ _ => by rw [hroom, hone]
        exact Bounded.function listed fixity hone hrest
      · exact bounded_symbol (p := ⟨p.last, some (Token.function symbol), p.rooms⟩) ih (by omega)
          (tokenWeight_function listed) (fun g hg => .call listed fixity hg) rfl hroom htail

/-- An operator between operands stands after one, or is called like a function. -/
theorem Readable.bounded_between {symbol : List Char} {entry : Entry}
    (listed : registry.find? symbol = some entry) (fixity : entry.fixity = .between)
    (arity : entry.arity = 2) (other : symbol ≠ factorialSymbol)
    (hread : Readable registry p (Token.operator symbol :: w)) :
    Bounded registry (Token.expectsOperand p.last) p.rooms (Token.operator symbol :: w) := by
  have hnext : p.next? registry (Token.operator symbol) =
      some ⟨p.last, some (Token.operator symbol), p.rooms⟩ := Place.next?_operator p symbol
  have htail := hread.tail hnext rfl hread.rooms
  have hafter := Token.expectsOperand_operator other
  cases hexpects : Token.expectsOperand p.last with
  | false =>
      have hrest := ih w (Nat.le_refl _) _ htail fun _ _ => by
        simp [Place.room, Token.operator, hexpects]
      rw [hafter] at hrest
      exact Bounded.between listed fixity arity hrest
  | true =>
      refine bounded_symbol (p := ⟨p.last, some (Token.operator symbol), p.rooms⟩) (n := 2) ih
        (by omega) (by rw [tokenWeight_operator listed, arity]) (fun g hg => ?_) hafter ?_ htail
      · exact .operatorCall listed fixity (by rwa [arity])
      · simp [Place.room, Token.operator, hexpects, listed, arity]

theorem Readable.bounded_factorial {entry : Entry}
    (listed : registry.find? factorialSymbol = some entry) (fixity : entry.fixity = .after)
    (arity : entry.arity = 1)
    (hread : Readable registry p (Token.operator factorialSymbol :: w)) :
    Bounded registry (Token.expectsOperand p.last) p.rooms
      (Token.operator factorialSymbol :: w) := by
  have hends : p.last.any Token.endsOperand = true := hread.factorials.1 rfl
  rw [Token.expectsOperand_of_any hends]
  have hnext : p.next? registry (Token.operator factorialSymbol) =
      some ⟨p.last, some (Token.operator factorialSymbol), p.rooms⟩ :=
    Place.next?_operator p factorialSymbol
  have hafter : Token.expectsOperand (some (Token.operator factorialSymbol)) = false := by
    simp [Token.expectsOperand, Token.operator]
  have hrest := ih w (Nat.le_refl _) _ (hread.tail hnext rfl hread.rooms) fun _ h => by
    rw [hafter] at h
    cases h
  rw [hafter] at hrest
  exact Bounded.after listed fixity arity hrest

end

/-- **The bound holds at every place** that no other parenthesis may open at than one that holds a
single expression. -/
theorem Readable.bounded (w : List Token) : ∀ p : Place, BoundedFrom registry p w := by
  -- two tokens go at once where a parenthesis opens the arguments of the symbol before it
  induction hlen : w.length using Nat.strongRecOn generalizing w with
  | _ len ih =>
  subst hlen
  intro p hread hroom
  cases w with
  | nil =>
      obtain ⟨p', hafter, hrooms⟩ := hread.closes
      cases hafter
      rw [hrooms]
      exact bounded_nil _
  | cons t w =>
      have ih' : ∀ us : List Token, us.length ≤ w.length → ∀ q, BoundedFrom registry q us :=
        fun us hus => ih us.length (by simp; omega) us rfl
      cases hread.proper t List.mem_cons_self with
      | atom atom => exact bounded_atom ih' atom hread
      | leftParen => exact bounded_leftParen ih' hread (hroom rfl)
      | rightParen => exact bounded_rightParen ih' hread
      | separator => exact bounded_separator ih' hread
      | function listed fixity arity => exact bounded_function ih' listed fixity arity hread
      | between listed fixity arity other =>
          exact bounded_between ih' listed fixity arity other hread
      | factorial listed fixity arity => exact bounded_factorial ih' listed fixity arity hread

/-- **A row without a surplus whose weights add up to one is an expression.** -/
theorem derives_of_weight {w : List Token} (hproper : ∀ t ∈ w, Proper registry t)
    (hfactorials : FactorialsFollow none w)
    (hcloses : ∃ p, Place.start.after? registry w = some p ∧ p.rooms = [])
    (hweight : weight registry w = 1) : Derives registry .expression w := by
  have hread : Readable registry Place.start w :=
    ⟨hproper, hfactorials, hcloses, fun n hn => absurd hn List.not_mem_nil⟩
  obtain ⟨_, hstarts⟩ := Readable.bounded w Place.start hread fun _ _ => rfl
  exact hstarts (by rw [hweight]; rfl)

/-! ## Expressions have no surplus -/

/-- A phrase is read from a place where an operand is expected to one where none is, with the same
open parentheses, of which the innermost may hold fewer further arguments after a row of them. -/
def ReadsOn (registry : Registry) (phrase : Phrase) (w : List Token) : Prop :=
  match phrase with
  | .operand | .expression => ∀ p : Place, Token.expectsOperand p.last = true →
      ∃ p', p.after? registry w = some p' ∧ Token.expectsOperand p'.last = false ∧
        p'.rooms = p.rooms
  | .arguments n => ∀ (p : Place) m rooms, Token.expectsOperand p.last = true →
      p.rooms = m :: rooms → n ≤ m →
      ∃ p', p.after? registry w = some p' ∧ Token.expectsOperand p'.last = false ∧
        ∃ m', p'.rooms = m' :: rooms

/-- The arguments between the parentheses of a call. -/
theorem ReadsOn.parens {n : Nat} {args : List Token} (h : ReadsOn registry (.arguments n) args)
    (p : Place) (hexpects : Token.expectsOperand p.last = true) (hroom : n ≤ p.room registry) :
    ∃ p', p.after? registry (Token.leftParen :: (args ++ [Token.rightParen])) = some p' ∧
      Token.expectsOperand p'.last = false ∧ p'.rooms = p.rooms := by
  obtain ⟨q, hq, _, m, hrooms⟩ :=
    h ⟨p.last, some Token.leftParen, p.room registry :: p.rooms⟩ _ _ rfl rfl hroom
  refine ⟨⟨q.last, some Token.rightParen, p.rooms⟩, ?_, rfl, rfl⟩
  rw [Place.after?_cons, Place.next?_leftParen, if_pos hexpects, Option.bind_some,
    Place.after?_append, hq, Option.bind_some, Place.after?_cons]
  simp [Place.next?, Token.rightParen, hrooms, Place.after?_nil]

section

variable {n : Nat} {symbol : List Char} {entry : Entry} {e o l r args : List Token}

theorem readsOn_atom {t : Token} (atom : t.isAtom = true) : ReadsOn registry .operand [t] := by
  intro p hexpects
  refine ⟨⟨p.last, some t, p.rooms⟩, ?_, Token.expectsOperand_atom atom, rfl⟩
  rw [Place.after?_cons, Place.next?_atom atom, if_pos hexpects]
  rfl

/-- An expression is a row of arguments without a separator, for which there is always room. -/
theorem ReadsOn.one (h : ReadsOn registry .expression e) : ReadsOn registry (.arguments n) e := by
  intro p m rooms hexpects hrooms _
  obtain ⟨q, hq, hends, hsame⟩ := h p hexpects
  exact ⟨q, hq, hends, m, by rw [hsame, hrooms]⟩

theorem ReadsOn.group (h : ReadsOn registry .expression e) :
    ReadsOn registry .operand (Token.leftParen :: (e ++ [Token.rightParen])) := by
  intro p hexpects
  have hargs : ReadsOn registry (.arguments 0) e := h.one
  exact hargs.parens p hexpects (Nat.zero_le _)

theorem ReadsOn.call (h : ReadsOn registry (.arguments entry.arity) args)
    (listed : registry.find? symbol = some entry) : ReadsOn registry .operand
      (Token.function symbol :: Token.leftParen :: (args ++ [Token.rightParen])) := by
  intro p hexpects
  have hparens := h.parens ⟨p.last, some (Token.function symbol), p.rooms⟩ rfl
    (by simp [Place.room, Token.function, listed])
  rw [Place.after?_cons, Place.next?_function, if_pos hexpects]
  exact hparens

/-- An operator between operands has room for arguments where an operand is expected. -/
theorem ReadsOn.operatorCall (h : ReadsOn registry (.arguments entry.arity) args)
    (listed : registry.find? symbol = some entry) (other : symbol ≠ factorialSymbol) :
    ReadsOn registry .operand
      (Token.operator symbol :: Token.leftParen :: (args ++ [Token.rightParen])) := by
  intro p hexpects
  rw [Place.after?_cons, Place.next?_operator]
  exact h.parens ⟨p.last, some (Token.operator symbol), p.rooms⟩
    (Token.expectsOperand_operator other) (by simp [Place.room, Token.operator, listed, hexpects])

theorem ReadsOn.apply (h : ReadsOn registry .operand o) (symbol : List Char) :
    ReadsOn registry .operand (Token.function symbol :: o) := by
  intro p hexpects
  rw [Place.after?_cons, Place.next?_function, if_pos hexpects]
  exact h ⟨p.last, some (Token.function symbol), p.rooms⟩ rfl

theorem ReadsOn.after (h : ReadsOn registry .operand o) :
    ReadsOn registry .operand (o ++ [Token.operator factorialSymbol]) := by
  intro p hexpects
  obtain ⟨q, hq, _, hrooms⟩ := h p hexpects
  refine ⟨⟨q.last, some (Token.operator factorialSymbol), q.rooms⟩, ?_, ?_, hrooms⟩
  · rw [Place.after?_append, hq]
    rfl
  · simp [Token.expectsOperand, Token.operator]

theorem ReadsOn.between (hl : ReadsOn registry .expression l) (hr : ReadsOn registry .operand r)
    (other : symbol ≠ factorialSymbol) :
    ReadsOn registry .expression (l ++ Token.operator symbol :: r) := by
  intro p hexpects
  obtain ⟨q, hq, _, hrooms⟩ := hl p hexpects
  obtain ⟨q', hq', hends, hrooms'⟩ := hr ⟨q.last, some (Token.operator symbol), q.rooms⟩
    (Token.expectsOperand_operator other)
  refine ⟨q', ?_, hends, hrooms'.trans hrooms⟩
  rw [Place.after?_append, hq, Option.bind_some, Place.after?_cons, Place.next?_operator]
  exact hq'

/-- After a separator there is room for one argument less. -/
theorem ReadsOn.more (he : ReadsOn registry .expression e)
    (hargs : ReadsOn registry (.arguments (n + 1)) args) :
    ReadsOn registry (.arguments (n + 2)) (e ++ Token.separator :: args) := by
  intro p m rooms hexpects hrooms hle
  obtain ⟨q, hq, _, hsame⟩ := he p hexpects
  obtain ⟨k, rfl⟩ : ∃ k, m = k + 2 := ⟨m - 2, by omega⟩
  obtain ⟨q', hq', hends, m', hrooms'⟩ :=
    hargs ⟨q.last, some Token.separator, (k + 1) :: rooms⟩ _ _ rfl rfl (by omega)
  have hnext : q.next? registry Token.separator =
      some ⟨q.last, some Token.separator, (k + 1) :: rooms⟩ := by
    simp [Place.next?, Token.separator, hsame, hrooms]
  refine ⟨q', ?_, hends, m', hrooms'⟩
  rw [Place.after?_append, hq, Option.bind_some, Place.after?_cons, hnext]
  exact hq'

end

/-- **What the grammar derives is read without a surplus**, production by production. -/
theorem Derives.readsOn (hgrammar : Grammatical registry) {phrase : Phrase} {w : List Token}
    (h : Derives registry phrase w) : ReadsOn registry phrase w := by
  induction h with
  | atom atom => exact readsOn_atom atom
  | group _ ih => exact ih.group
  | call listed _ _ ih => exact ih.call listed
  | operatorCall listed fixity _ ih => exact ih.operatorCall listed (hgrammar.between listed fixity).2
  | apply listed _ _ _ ih => exact ih.apply _
  | after _ listed fixity ih =>
      obtain rfl := (hgrammar.after listed fixity).2
      exact ih.after
  | single _ ih => exact ih
  | between _ listed fixity _ ihl ihr => exact ihl.between ihr (hgrammar.between listed fixity).2
  | one _ ih => exact ih.one
  | more _ _ ihe ihargs => exact ihe.more ihargs

theorem noSurplus_of_derives (hgrammar : Grammatical registry) {w : List Token}
    (h : Derives registry .expression w) : NoSurplus registry w := by
  obtain ⟨p, hp, _⟩ := h.readsOn hgrammar Place.start rfl
  rw [NoSurplus, hp]
  rfl

end Grammar

end DecimalCalc
