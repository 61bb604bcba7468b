import DecimalCalc.Proofs.Failures
import DecimalCalc.Proofs.Parentheses

/-!
# Bars mean the absolute value

A bar opens and closes with the same character; which of the two it does is settled by what stands
before it, and by the number of bars that are open. In a line that is written by the rules of
expressions (`Formed`), with each opening bar where an operand is expected, this is what the writer
meant: such a line is scanned without a surprise (`Formed.scan`). So **with `abs(` in the place of
each opening bar and `)` in the place of each closing one, a line has the tokens that it had**
(`Lexicon.tokenize_bars`).

The rules are about the lexemes that the line is read as. They say nothing of where spaces stand.
-/

set_option autoImplicit false

namespace DecimalCalc

open Grammar (Phrase)

/-! ## Lines with bars -/

/-- A lexeme of a line, where bars that open and bars that close are told apart. -/
inductive Mark
  | plain (kind : LexemeKind) (text : List Char)
  | opens
  | closes
  deriving DecidableEq

namespace Mark

/-- The lexeme of a mark, wherever it stands. -/
def lexeme : Mark → Lexeme
  | .plain kind text => ⟨kind, text, 0⟩
  | .opens | .closes => ⟨.bar, ['|'], 0⟩

/-- The lexemes that a mark is written out as: those of `abs(` for a bar that opens, and that of `)`
for a bar that closes. -/
def spelled : Mark → List Lexeme
  | .plain kind text => [⟨kind, text, 0⟩]
  | .opens => [⟨.symbol, absoluteSymbol, 0⟩, ⟨.leftParen, ['('], 0⟩]
  | .closes => [⟨.rightParen, [')'], 0⟩]

/-- Not a space. -/
def isVisible : Mark → Bool
  | .plain .space _ => false
  | _ => true

def symbol (name : List Char) : Mark := .plain .symbol name

def leftParen : Mark := .plain .leftParen ['(']

def rightParen : Mark := .plain .rightParen [')']

/-- The text of a mark, with bars written out. -/
def spelledText : Mark → List Char
  | .plain _ text => text
  | .opens => "abs(".toList
  | .closes => [')']

end Mark

open Mark

/-- A function, or an operator between operands. -/
def Leads (name : List Char) : Prop :=
  ∃ entry, Registry.builtin.find? name = some entry ∧ entry.fixity ≠ .after

/-- **Expressions with bars.** Operands are numbers, variables, constants, expressions in parentheses
or between bars, calls with arguments in parentheses, a function or a sign before an operand, and an
operand with `!` after it. Operators between operands join them, and so do implied products, except
before a bar that opens. -/
inductive Formed : Phrase → List Mark → Prop
  | number {text : List Char} : Formed .operand [.plain .number text]
  | word {text : List Char} : Formed .operand [.plain .word text]
  | constant {name : List Char} (constant : name ∈ ({} : Lexicon).constants) :
      Formed .operand [symbol name]
  | group {e : List Mark} (inner : Formed .expression e) :
      Formed .operand (leftParen :: (e ++ [rightParen]))
  | bars {e : List Mark} (inner : Formed .expression e) :
      Formed .operand (.opens :: (e ++ [.closes]))
  | call {name : List Char} {n : Nat} {args : List Mark} (leads : Leads name)
      (arguments : Formed (.arguments n) args) :
      Formed .operand (symbol name :: leftParen :: (args ++ [rightParen]))
  | apply {name : List Char} {entry : Entry} {o : List Mark}
      (listed : Registry.builtin.find? name = some entry) (fixity : entry.fixity = .before)
      (operand : Formed .operand o) : Formed .operand (symbol name :: o)
  | sign {name : List Char} {o : List Mark} (sign : name = ['+'] ∨ name = ['-'])
      (operand : Formed .operand o) : Formed .operand (symbol name :: o)
  | factorial {o : List Mark} (operand : Formed .operand o) :
      Formed .operand (o ++ [symbol factorialSymbol])
  | single {o : List Mark} (operand : Formed .operand o) : Formed .expression o
  | between {name : List Char} {entry : Entry} {l r : List Mark} (left : Formed .operand l)
      (listed : Registry.builtin.find? name = some entry) (fixity : entry.fixity = .between)
      (right : Formed .expression r) : Formed .expression (l ++ symbol name :: r)
  | product {l r : List Mark} (left : Formed .operand l) (right : Formed .expression r)
      (apart : r.head? ≠ some .opens) : Formed .expression (l ++ r)
  | one {e : List Mark} (argument : Formed .expression e) : Formed (.arguments 1) e
  | more {n : Nat} {text : List Char} {e args : List Mark} (argument : Formed .expression e)
      (rest : Formed (.arguments (n + 1)) args) :
      Formed (.arguments (n + 2)) (e ++ .plain .separator text :: args)

/-! ## Scanning a line -/

/-- What is known after some marks: whether an operand is expected, and how many bars are open. -/
structure Scan where
  expected : Bool
  bars : Nat

namespace Scan

/-- The start of a line. -/
def start : Scan := ⟨true, 0⟩

/-- What is known after one more mark, if it may stand here. -/
def next? (scan : Scan) : Mark → Option Scan
  | .opens => if scan.expected then some ⟨true, scan.bars + 1⟩ else none
  | .closes => if scan.expected ∨ scan.bars = 0 then none else some ⟨false, scan.bars - 1⟩
  | .plain kind text =>
    match kind with
    | .space => some scan
    | .number | .word | .rightParen => some ⟨false, scan.bars⟩
    | .leftParen | .separator => some ⟨true, scan.bars⟩
    | .bar => none
    | .symbol =>
      if text ∈ ({} : Lexicon).constants then some ⟨false, scan.bars⟩
      else if text = factorialSymbol then if scan.expected then none else some scan
      else some ⟨true, scan.bars⟩

/-- What is known after a row of marks. -/
def after? (scan : Scan) (marks : List Mark) : Option Scan := marks.foldlM next? scan

@[simp] theorem after?_nil (scan : Scan) : scan.after? [] = some scan := rfl

@[simp] theorem after?_cons (scan : Scan) (m : Mark) (marks : List Mark) :
    scan.after? (m :: marks) = (scan.next? m).bind fun scan => scan.after? marks :=
  List.foldlM_cons

@[simp] theorem after?_append (scan : Scan) (marks marks' : List Mark) :
    scan.after? (marks ++ marks') = (scan.after? marks).bind fun scan => scan.after? marks' :=
  List.foldlM_append

/-- Spaces do not matter. -/
theorem after?_visible (marks : List Mark) : ∀ scan : Scan,
    scan.after? (marks.filter isVisible) = scan.after? marks := by
  induction marks with
  | nil => exact fun scan => rfl
  | cons m marks ih =>
      intro scan
      cases hvisible : m.isVisible with
      | true =>
          rw [List.filter_cons_of_pos hvisible, after?_cons, after?_cons]
          exact congrArg _ (funext ih)
      | false =>
          have hspace : scan.next? m = some scan := by
            match m, hvisible with
            | .plain .space _, _ => rfl
          rw [List.filter_cons_of_neg (by simp [hvisible]), after?_cons, hspace, ih]
          rfl

end Scan

open Scan

/-- An operand is expected after a symbol that leads one. -/
theorem Leads.next? {name : List Char} (h : Leads name) (scan : Scan) :
    scan.next? (symbol name) = some ⟨true, scan.bars⟩ := by
  have hentries : ∀ e ∈ Builtin.entries, e.fixity ≠ .after →
      e.symbol ∉ ({} : Lexicon).constants ∧ e.symbol ≠ factorialSymbol := by
    decide +kernel
  obtain ⟨entry, hfind, hfixity⟩ := h
  have hname : entry.symbol = name := by simpa using List.find?_some hfind
  obtain ⟨hconstant, hother⟩ := hentries entry (List.mem_of_find?_eq_some hfind) hfixity
  rw [hname] at hconstant hother
  simp only [Scan.next?, symbol, if_neg hconstant, if_neg hother]

theorem leads_sign {name : List Char} (h : name = ['+'] ∨ name = ['-']) : Leads name := by
  rcases h with rfl | rfl <;> exact ⟨_, rfl, by decide⟩

theorem Formed.ne_nil {phrase : Phrase} {marks : List Mark} (h : Formed phrase marks) :
    marks ≠ [] := by
  induction h <;> simp_all

/-- **What is written by the rules is scanned to its end**, and leaves as many bars open as there
were. Only a bar that opens asks for an operand to be expected. -/
theorem Formed.scan {phrase : Phrase} {marks : List Mark} (h : Formed phrase marks) :
    ∀ scan : Scan, (marks.head? = some .opens → scan.expected = true) →
      scan.after? marks = some ⟨false, scan.bars⟩ := by
  have hhead : ∀ {l r : List Mark}, l ≠ [] → (l ++ r).head? = l.head? := fun hl =>
    List.head?_append_of_ne_nil _ hl
  have hfactorial : factorialSymbol ∉ ({} : Lexicon).constants := by decide
  induction h with
  | number | word => exact fun scan _ => rfl
  | constant constant => exact fun scan _ => by simp [Scan.next?, symbol, constant]
  | group inner ih =>
      intro scan _
      have hinner := ih ⟨true, scan.bars⟩ fun _ => rfl
      simp [Scan.next?, Mark.leftParen, Mark.rightParen, hinner]
  | bars inner ih =>
      intro scan hexpected
      have hinner := ih ⟨true, scan.bars + 1⟩ fun _ => rfl
      simp [Scan.next?, hexpected rfl, hinner]
  | call leads arguments ih =>
      intro scan _
      have hargs := ih ⟨true, scan.bars⟩ fun _ => rfl
      rw [after?_cons, leads.next?]
      simp [Scan.next?, Mark.leftParen, Mark.rightParen, hargs]
  | apply listed fixity operand ih =>
      have leads : Leads _ := ⟨_, listed, by rw [fixity]; decide⟩
      intro scan _
      rw [after?_cons, leads.next?]
      exact ih ⟨true, scan.bars⟩ fun _ => rfl
  | sign sign operand ih =>
      have leads : Leads _ := leads_sign sign
      intro scan _
      rw [after?_cons, leads.next?]
      exact ih ⟨true, scan.bars⟩ fun _ => rfl
  | factorial operand ih =>
      intro scan hexpected
      rw [hhead operand.ne_nil] at hexpected
      simp [ih scan hexpected, Scan.next?, symbol, hfactorial]
  | single operand ih => exact ih
  | between left listed fixity right ihl ihr =>
      have leads : Leads _ := ⟨_, listed, by rw [fixity]; decide⟩
      intro scan hexpected
      rw [hhead left.ne_nil] at hexpected
      rw [after?_append, ihl scan hexpected]
      show Scan.after? ⟨false, scan.bars⟩ _ = _
      rw [after?_cons, leads.next?]
      exact ihr ⟨true, scan.bars⟩ fun _ => rfl
  | product left right apart ihl ihr =>
      intro scan hexpected
      rw [hhead left.ne_nil] at hexpected
      rw [after?_append, ihl scan hexpected]
      -- a bar that opens would be read as closing here, and no product stands before one
      exact ihr ⟨false, scan.bars⟩ fun hopens => absurd hopens apart
  | one argument ih => exact ih
  | more argument rest ihe ihr =>
      intro scan hexpected
      rw [hhead argument.ne_nil] at hexpected
      rw [after?_append, ihe scan hexpected]
      exact ihr ⟨true, scan.bars⟩ fun _ => rfl

/-! ## Tokens of a line and of the line with its bars written out -/

namespace Token

/-- The last token before a place leaves the same to be expected as a scan does. -/
def Follows (last : Option Token) (scan : Scan) : Prop :=
  expectsOperand last = scan.expected ∧ last.any endsOperand = !scan.expected

/-- From a place on, a row of marks and the same row with its bars written out have the same
tokens. -/
def ReadsAlike (last : Option Token) (scan : Scan) (marks : List Mark) : Prop :=
  ∃ tokens, ofLexemesAfter {} last scan.bars (marks.map lexeme) = .ok tokens ∧
    ∀ bars, ofLexemesAfter {} last bars (marks.flatMap spelled) = .ok tokens

/-- Both rows go on alike after marks that are read as the same tokens. -/
theorem ReadsAlike.emit {last : Option Token} {scan scan' : Scan} {marks rest : List Mark}
    (tokens : List Token) (h : ReadsAlike (tokens.getLast?.or last) scan' rest)
    (hmarks : ofLexemesAfter {} last scan.bars (marks.map lexeme) =
      (ofLexemesAfter {} (tokens.getLast?.or last) scan'.bars (rest.map lexeme)).map
        (tokens ++ ·))
    (hspelled : ∀ bars, ofLexemesAfter {} last bars (marks.flatMap spelled) =
      (ofLexemesAfter {} (tokens.getLast?.or last) bars (rest.flatMap spelled)).map
        (tokens ++ ·)) : ReadsAlike last scan marks := by
  obtain ⟨others, hothers, hothers'⟩ := h
  refine ⟨tokens ++ others, ?_, fun bars => ?_⟩
  · rw [hmarks, hothers]
    rfl
  · rw [hspelled, hothers']
    rfl

/-- Where the one row goes on with a number, the other one does. -/
theorem head?_ne_number_of_marks {marks : List Mark}
    (h : ∀ digits rest, marks ≠ .plain .number digits :: rest) :
    (∀ l ∈ (marks.map lexeme).head?, l.kind ≠ .number) ∧
      ∀ l ∈ (marks.flatMap spelled).head?, l.kind ≠ .number := by
  match marks, h with
  | [], _ => exact ⟨nofun, nofun⟩
  | .opens :: _, _ | .closes :: _, _ => exact ⟨by rintro _ ⟨⟩ ⟨⟩, by rintro _ ⟨⟩ ⟨⟩⟩
  | .plain kind text :: rest, h =>
      have hkind : kind ≠ .number := by
        rintro rfl
        exact h text rest rfl
      exact ⟨by rintro _ ⟨⟩; exact hkind, by rintro _ ⟨⟩; exact hkind⟩

section

variable {last : Option Token} {scan : Scan} {marks : List Mark}

/-- A bar opens where an operand is expected. -/
theorem ReadsAlike.opens (hlast : Follows last scan) (hexpected : scan.expected = true)
    (h : ReadsAlike (some Token.leftParen) ⟨true, scan.bars + 1⟩ marks) :
    ReadsAlike last scan (.opens :: marks) := by
  have hopens : ¬(scan.bars ≠ 0 ∧ (!expectsOperand last) = true) := by
    simp [hlast.1, hexpected]
  refine h.emit [function absoluteSymbol, Token.leftParen] ?_ fun bars => ?_
  · simp only [List.map_cons, lexeme, ofLexemesAfter, if_neg hopens]
    rfl
  · show ofLexemesAfter {} last bars (⟨.symbol, absoluteSymbol, 0⟩ :: _) = _
    rw [ofLexemesAfter_symbol (t := function absoluteSymbol) (by decide)
      (fun h => absurd h.1 (by decide)) rfl]
    show ((ofLexemesAfter {} (some Token.leftParen) bars _).map _).map _ = _
    rw [Except.map_map]
    rfl

/-- A bar closes where an operand has ended and a bar is open. -/
theorem ReadsAlike.closes (hlast : Follows last scan) (hexpected : scan.expected = false)
    (hbars : scan.bars ≠ 0) (h : ReadsAlike (some Token.rightParen) ⟨false, scan.bars - 1⟩ marks) :
    ReadsAlike last scan (.closes :: marks) := by
  have hcloses : scan.bars ≠ 0 ∧ (!expectsOperand last) = true := by
    simp [hlast.1, hexpected, hbars]
  refine h.emit [Token.rightParen] ?_ fun bars => rfl
  simp only [List.map_cons, lexeme, ofLexemesAfter, if_pos hcloses]
  rfl

theorem ReadsAlike.constant {name : List Char} (hconstant : name ∈ ({} : Lexicon).constants)
    (h : ReadsAlike (some (constant name)) ⟨false, scan.bars⟩ marks) :
    ReadsAlike last scan (symbol name :: marks) := by
  have hread : ∀ bars rest, ofLexemesAfter {} last bars (⟨.symbol, name, 0⟩ :: rest) =
      (ofLexemesAfter {} (some (Token.constant name)) bars rest).map
        (Token.constant name :: ·) := fun bars rest => by
    simp only [ofLexemesAfter, if_pos (List.contains_iff_mem.mpr hconstant)]
  exact h.emit [Token.constant name] (hread _ _) fun bars => hread _ _

variable {name : List Char} (hconstant : ¬({} : Lexicon).constants.contains name = true)

include hconstant

/-- A sign and the number after it are one token. -/
theorem ReadsAlike.signed (hsign : (name = ['+'] ∨ name = ['-']) ∧ expectsOperand last = true)
    {digits : List Char} (h : ∀ text, ReadsAlike (some (number text)) ⟨false, scan.bars⟩ marks) :
    ReadsAlike last scan (symbol name :: .plain .number digits :: marks) := by
  let t := number ((if name = ['-'] then ['-'] else []) ++ NumberLiteral.canonical digits)
  have hread : ∀ bars rest, ofLexemesAfter {} last bars
      (⟨.symbol, name, 0⟩ :: ⟨.number, digits, 0⟩ :: rest) =
        (ofLexemesAfter {} (some t) bars rest).map (t :: ·) := fun bars rest => by
    simp only [ofLexemesAfter, if_neg hconstant, if_pos hsign]
    rfl
  exact (h _).emit [t] (hread _ _) fun bars => hread _ _

/-- A minus sign that no number follows is a function, and a plus sign is nothing. -/
theorem ReadsAlike.sign (hsign : (name = ['+'] ∨ name = ['-']) ∧ expectsOperand last = true)
    (hmarks : ∀ digits rest, marks ≠ .plain .number digits :: rest)
    (h : ∀ t, Follows t ⟨true, scan.bars⟩ → ReadsAlike t ⟨true, scan.bars⟩ marks)
    (hlast : Follows last ⟨true, scan.bars⟩) : ReadsAlike last scan (symbol name :: marks) := by
  obtain ⟨hlexemes, hspelled⟩ := head?_ne_number_of_marks hmarks
  by_cases hminus : name = ['-']
  · refine (h (some (function negateSymbol)) ⟨rfl, rfl⟩).emit [function negateSymbol] ?_
      fun bars => ?_
    · exact (ofLexemesAfter_sign hconstant hsign hlexemes).trans (if_pos hminus)
    · exact (ofLexemesAfter_sign hconstant hsign hspelled).trans (if_pos hminus)
  · obtain ⟨tokens, htokens, htokens'⟩ := h last hlast
    refine ⟨tokens, ?_, fun bars => ?_⟩
    · exact ((ofLexemesAfter_sign hconstant hsign hlexemes).trans (if_neg hminus)).trans htokens
    · exact ((ofLexemesAfter_sign hconstant hsign hspelled).trans
        (if_neg hminus)).trans (htokens' bars)

/-- The token of any other symbol, and what it leaves to be expected. -/
theorem ofSymbol_follows {scan' : Scan} (hmem : name ∈ ({} : Lexicon).symbols)
    (hlast : Follows last scan) (hnext : scan.next? (symbol name) = some scan') :
    ∃ t, ofSymbol {} last name 0 = .ok t ∧ Follows (some t) scan' ∧ scan'.bars = scan.bars := by
  have hconstant' : name ∉ ({} : Lexicon).constants := by simpa using hconstant
  simp only [Scan.next?, symbol, if_neg hconstant'] at hnext
  -- the factorial is the one symbol that leaves no operand to be expected
  by_cases hfactorial : name = factorialSymbol
  · rw [if_pos hfactorial] at hnext
    split at hnext
    · cases hnext
    · rename_i hexpected
      obtain rfl := Option.some.inj hnext
      rw [Bool.not_eq_true] at hexpected
      have hends : last.any endsOperand = true := by rw [hlast.2, hexpected]; rfl
      refine ⟨operator name, by rw [ofSymbol, if_pos hfactorial, if_pos hends], ?_, rfl⟩
      rw [hfactorial]
      exact ⟨by rw [hexpected]; decide, by rw [hexpected]; decide⟩
  · rw [if_neg hfactorial] at hnext
    obtain rfl := Option.some.inj hnext
    obtain ⟨entry, hentry⟩ :=
      Registry.exists_lookup ((List.mem_append.mp hmem).resolve_right hconstant')
    refine ⟨if entry.isFunction then function name else operator name, ?_, ?_, rfl⟩
    · rw [ofSymbol, if_neg hfactorial, hentry]
    · cases entry.isFunction with
      | true => exact ⟨rfl, rfl⟩
      | false => exact ⟨expectsOperand_operator hfactorial, by simpa [endsOperand, operator]⟩

end

/-- A constant, a sign or any other symbol; a sign takes a number after it along. -/
theorem ReadsAlike.symbol {last : Option Token} {scan next : Scan} {marks : List Mark}
    {name : List Char} (hlast : Follows last scan) (hmem : name ∈ ({} : Lexicon).symbols)
    (hnext : scan.next? (Mark.symbol name) = some next)
    (hrest : ∀ t, Follows t next → ReadsAlike t next marks)
    (hnumber : ∀ digits rest text, marks = .plain .number digits :: rest →
      ReadsAlike (some (number text)) ⟨false, next.bars⟩ rest) :
    ReadsAlike last scan (Mark.symbol name :: marks) := by
  by_cases hconstant : ({} : Lexicon).constants.contains name = true
  · have hmem : name ∈ ({} : Lexicon).constants := List.contains_iff_mem.mp hconstant
    simp only [Scan.next?, Mark.symbol, if_pos hmem] at hnext
    obtain rfl := Option.some.inj hnext
    exact (hrest _ ⟨rfl, rfl⟩).constant hmem
  -- a sign of the operand that follows, which takes a number right behind it along
  by_cases hsign : (name = ['+'] ∨ name = ['-']) ∧ expectsOperand last = true
  · have hnext' : some next = some ⟨true, scan.bars⟩ :=
      hnext.symm.trans ((leads_sign hsign.1).next? scan)
    obtain rfl := Option.some.inj hnext'
    by_cases hdigits : ∃ digits rest, marks = .plain .number digits :: rest
    · obtain ⟨digits, rest, rfl⟩ := hdigits
      exact ReadsAlike.signed hconstant hsign fun text => hnumber digits rest text rfl
    · have hexpected : scan.expected = true := hlast.1.symm.trans hsign.2
      exact ReadsAlike.sign hconstant hsign (fun digits rest heq => hdigits ⟨digits, rest, heq⟩)
        hrest (by rwa [← hexpected])
  · obtain ⟨t, hsymbol, hfollows, hbars⟩ := ofSymbol_follows hconstant hmem hlast hnext
    refine (hrest _ hfollows).emit [t] ?_ fun bars => ?_
    · rw [hbars]
      exact ofLexemesAfter_symbol hconstant hsign hsymbol _
    · exact ofLexemesAfter_symbol hconstant hsign hsymbol _

/-- **A row that can be scanned has tokens, and with its bars written out it has the same ones.** -/
theorem readsAlike (marks : List Mark) {last : Option Token} {scan scan' : Scan}
    (hlast : Follows last scan) (hscan : scan.after? marks = some scan')
    (hknown : ∀ name, symbol name ∈ marks → name ∈ ({} : Lexicon).symbols) :
    ReadsAlike last scan marks := by
  -- a sign takes the number after it along, so that not just the rest of the row is asked for
  induction hlength : marks.length using Nat.strong_induction_on generalizing marks last scan with
  | _ n ih =>
  subst hlength
  match marks with
  | [] => exact ⟨[], rfl, fun _ => rfl⟩
  | m :: marks =>
      rw [after?_cons] at hscan
      obtain ⟨next, hnext, hafter⟩ := Option.bind_eq_some_iff.mp hscan
      have hknown' : ∀ name, symbol name ∈ marks → name ∈ ({} : Lexicon).symbols :=
        fun name hmem => hknown name (List.mem_cons_of_mem m hmem)
      have hrest : ∀ t, Follows t next → ReadsAlike t next marks := fun t h =>
        ih marks.length (Nat.lt_succ_self _) marks h hafter hknown' rfl
      match m with
      | .opens =>
          simp only [Scan.next?] at hnext
          split at hnext
          · rename_i hexpected
            obtain rfl := Option.some.inj hnext
            exact (hrest _ ⟨rfl, rfl⟩).opens hlast hexpected
          · cases hnext
      | .closes =>
          simp only [Scan.next?] at hnext
          split at hnext
          · cases hnext
          · rename_i hcloses
            obtain ⟨hexpected, hbars⟩ := not_or.mp hcloses
            obtain rfl := Option.some.inj hnext
            exact (hrest _ ⟨rfl, rfl⟩).closes hlast (by simpa using hexpected) hbars
      | .plain .space text =>
          obtain rfl := Option.some.inj hnext
          obtain ⟨tokens, htokens, htokens'⟩ := hrest last hlast
          exact ⟨tokens, htokens, htokens'⟩
      | .plain .bar text => cases hnext
      | .plain .number text =>
          obtain rfl := Option.some.inj hnext
          exact (hrest _ ⟨rfl, rfl⟩).emit [number (NumberLiteral.canonical text)] rfl fun _ => rfl
      | .plain .word text =>
          obtain rfl := Option.some.inj hnext
          exact (hrest _ ⟨rfl, rfl⟩).emit [reference text] rfl fun _ => rfl
      | .plain .leftParen text =>
          obtain rfl := Option.some.inj hnext
          exact (hrest _ ⟨rfl, rfl⟩).emit [Token.leftParen] rfl fun _ => rfl
      | .plain .rightParen text =>
          obtain rfl := Option.some.inj hnext
          exact (hrest _ ⟨rfl, rfl⟩).emit [Token.rightParen] rfl fun _ => rfl
      | .plain .separator text =>
          obtain rfl := Option.some.inj hnext
          exact (hrest _ ⟨rfl, rfl⟩).emit [separator] rfl fun _ => rfl
      | .plain .symbol name =>
          refine ReadsAlike.symbol hlast (hknown name List.mem_cons_self) hnext hrest ?_
          rintro digits rest text rfl
          exact ih rest.length (by simp only [List.length_cons]; omega) rest ⟨rfl, rfl⟩ hafter
            (fun name hmem => hknown' name (List.mem_cons_of_mem _ hmem)) rfl

end Token

/-! ## Lexemes of the line with its bars written out -/

namespace Lexeme

variable {symbols : List (List Char)}

/-- **Pieces may be cut apart anywhere**, the first ones being the pieces before the place. -/
theorem pieces?_cut (apart : Unparenthesized symbols) {x : List Char} (w : List Char) :
    ∀ {skip : Nat} {front rest : List Lexeme},
      pieces? symbols skip (w ++ x) = some (front ++ rest) →
        skip + (front.flatMap Lexeme.text).length = w.length →
          piecesBefore? symbols x skip w = some front ∧ pieces? symbols 0 x = some rest := by
  induction w with
  | nil =>
      intro skip front rest h hlength
      obtain ⟨rfl, hnone⟩ := Nat.add_eq_zero_iff.mp hlength
      cases front with
      | nil => exact ⟨rfl, h⟩
      | cons l front =>
          -- no piece is empty
          cases x with
          | nil => cases h
          | cons c x =>
              rw [List.nil_append, pieces?] at h
              split at h
              · obtain ⟨others, -, heq⟩ := Option.map_eq_some_iff.mp h
                obtain ⟨rfl, -⟩ := List.cons.inj heq
                simp at hnone
              · cases h
  | cons c w ih =>
      intro skip front rest h hlength
      rw [List.length_cons] at hlength
      cases skip with
      | succ skip => exact ih h (by omega)
      | zero =>
          rw [List.cons_append, pieces?] at h
          split at h
          · rename_i kind more hat
            obtain ⟨others, hothers, heq⟩ := Option.map_eq_some_iff.mp h
            have hmore := at?_le apart (List.cons_ne_nil c (w ++ x)) hat
            cases front with
            | nil => simp at hlength
            | cons l front =>
                obtain ⟨rfl, rfl⟩ := List.cons.inj heq
                rw [List.flatMap_cons, List.length_append, List.length_take,
                  Nat.min_eq_left hmore] at hlength
                obtain ⟨hbefore, hrest⟩ := ih hothers (by omega)
                refine ⟨?_, hrest⟩
                have htake : (c :: (w ++ x)).take (more + 1) = (c :: w).take (more + 1) := by
                  rw [← List.cons_append, List.take_append_of_le_length]
                  rw [List.length_cons]
                  omega
                rw [piecesBefore?, hat, htake]
                exact congrArg (Option.map _) hbefore
          · cases h

theorem pieces?_after_bar (apart : Unparenthesized symbols) {x : List Char} {rest : List Lexeme}
    (h : pieces? symbols 0 (['|'] ++ x) = some ([⟨.bar, ['|'], 0⟩] ++ rest)) :
    pieces? symbols 0 x = some rest :=
  (pieces?_cut apart ['|'] h rfl).2

/-- **The text after some pieces may be exchanged** for another one that cannot go them on either.
-/
theorem pieces?_exchange (apart : Unparenthesized symbols) {x y : List Char}
    (hx : Opens symbols x) (hy : Opens symbols y) {front rest rest' : List Lexeme}
    (h : pieces? symbols 0 (front.flatMap Lexeme.text ++ x) = some (front ++ rest))
    (hword : ∀ l ∈ front.getLast?, l.kind = .word →
      y.head?.any Text.isLetter = true → x.head?.any Text.isLetter = true)
    (hrest : pieces? symbols 0 y = some rest') :
    pieces? symbols 0 (front.flatMap Lexeme.text ++ y) = some (front ++ rest') := by
  obtain ⟨hbefore, -⟩ := pieces?_cut apart _ h (Nat.zero_add _)
  rw [pieces?_append _ (piecesBefore?_congr apart.exist hx hy _ hbefore hword), hrest]
  rfl

/-- After a word no operand is expected, so that no bar opens. -/
theorem after?_word {scan scan' : Scan} {marks : List Mark} {text : List Char}
    (hword : Mark.plain .word text ∈ marks.getLast?) (h : scan.after? marks = some scan') :
    scan'.expected = false := by
  obtain ⟨front, rfl⟩ := List.getLast?_eq_some_iff.mp hword
  rw [after?_append] at h
  obtain ⟨middle, -, hlast⟩ := Option.bind_eq_some_iff.mp h
  obtain rfl := Option.some.inj hlast
  rfl

/-- A bar stands directly after a word only to close. -/
theorem word_of_last {front rest : List Mark} {m : Mark} {scan scan' : Scan}
    (h : scan.after? (front ++ m :: rest) = some scan') {l : Lexeme}
    (hl : l ∈ (front.map lexeme).getLast?) (hword : l.kind = .word) : m ≠ .opens := by
  rintro rfl
  rw [List.getLast?_map] at hl
  obtain ⟨last, hlast, rfl⟩ := Option.map_eq_some_iff.mp hl
  rw [after?_append] at h
  obtain ⟨middle, hmiddle, hrest⟩ := Option.bind_eq_some_iff.mp h
  match last, hword with
  | .plain .word text, _ =>
      have hexpected := after?_word hlast hmiddle
      rw [after?_cons, Scan.next?, hexpected] at hrest
      cases hrest

theorem pieces?_abs (rest : List Char) :
    pieces? ({} : Lexicon).symbols 0 ("abs(".toList ++ rest) =
      (pieces? ({} : Lexicon).symbols 0 rest).map
        ([⟨.symbol, absoluteSymbol, 0⟩, ⟨.leftParen, ['('], 0⟩] ++ ·) := by
  have hsymbol : absoluteSymbol ∈ ({} : Lexicon).symbols ∧ ∀ t ∈ ({} : Lexicon).symbols,
      absoluteSymbol.isPrefixOf t = true → t = absoluteSymbol := by
    decide +kernel
  have hstops : NumberLiteral.StopsAt absoluteSymbol := by
    rintro c ⟨⟩
    decide
  have hparen := pieces?_paren (.inl ⟨rfl, rfl⟩) builtin_unparenthesized rest []
    (Nat.zero_le _)
  rw [show "abs(".toList ++ rest = absoluteSymbol ++ ('(' :: rest) from rfl,
    pieces?_symbol hsymbol.1 (fun t ht hpre => hsymbol.2 t ht (List.isPrefixOf_iff_prefix.mpr hpre))
      hstops (by decide)]
  rw [List.nil_append] at hparen
  rw [hparen]
  simp [pieces?, Option.map_map, Function.comp_def]

/-- **Writing out the bars of a line exchanges their lexemes** and leaves the others as they are. -/
theorem pieces?_spelledText {marks : List Mark} {scan scan' : Scan}
    (hscan : scan.after? marks = some scan')
    (h : pieces? ({} : Lexicon).symbols 0 ((marks.map lexeme).flatMap Lexeme.text) =
      some (marks.map lexeme)) :
    pieces? ({} : Lexicon).symbols 0 (marks.flatMap spelledText) = some (marks.flatMap spelled) := by
  have apart := builtin_unparenthesized
  -- bars are written out from the last one to the first
  have hsuffix : ∀ suffix front : List Mark, front ++ suffix = marks →
      pieces? ({} : Lexicon).symbols 0
        ((front.map lexeme).flatMap Lexeme.text ++ suffix.flatMap spelledText) =
          some (front.map lexeme ++ suffix.flatMap spelled) := by
    intro suffix
    induction suffix with
    | nil =>
        rintro front rfl
        simpa using h
    | cons m suffix ih =>
        rintro front rfl
        have hrest := ih (front ++ [m]) (by simp)
        rw [List.map_append, List.flatMap_append, List.append_assoc, List.append_assoc] at hrest
        match m with
        | .plain kind text => simpa [spelledText, spelled, lexeme] using hrest
        | .opens =>
            obtain ⟨-, hbar⟩ := pieces?_cut apart _ hrest (Nat.zero_add _)
            have hafter := pieces?_after_bar apart hbar
            exact pieces?_exchange apart (builtin_opens (by decide) _)
              (builtin_opens (c := 'a') (by decide) ("bs(".toList ++ suffix.flatMap spelledText)) hrest
              (fun l hl hword => absurd rfl (word_of_last hscan hl hword))
              ((pieces?_abs _).trans (by rw [hafter]; rfl))
        | .closes =>
            obtain ⟨-, hbar⟩ := pieces?_cut apart _ hrest (Nat.zero_add _)
            have hafter := pieces?_after_bar apart hbar
            have hclosed := pieces?_rightParen builtin_unclosed (suffix.flatMap spelledText)
            rw [hafter] at hclosed
            exact pieces?_exchange apart (builtin_opens (by decide) _)
              (opens_rightParen builtin_unclosed _) hrest (by rintro _ _ _ ⟨⟩) hclosed
  exact hsuffix marks [] rfl

end Lexeme

namespace Lexicon

/-- **Bars mean the absolute value.** Let the lexemes of a line be those of a row of marks, and let
the row be written by the rules but for its spaces. With `abs(` for each bar that opens and `)` for
each bar that closes, however they are nested, the line has the tokens that it had. -/
theorem tokenize_bars {line : List Char} {lexemes : List Lexeme} {marks : List Mark}
    (read : Lexeme.lex ({} : Lexicon).symbols line = .ok lexemes)
    (marked : lexemes.map Lexeme.unplaced = marks.map Mark.lexeme)
    (written : Formed .expression (marks.filter Mark.isVisible)) :
    ∃ tokens, ({} : Lexicon).tokenize line = .ok tokens ∧
      ({} : Lexicon).tokenize (marks.flatMap Mark.spelledText) = .ok tokens := by
  have hscan : Scan.start.after? marks = some ⟨false, 0⟩ := by
    rw [← Scan.after?_visible]
    exact written.scan Scan.start fun _ => rfl
  -- the line is the text of its lexemes
  have hjoined := ((Lexeme.lex_eq_ok_iff Lexeme.builtin_unclosed.exist
    fun hnil => Lexeme.builtin_unclosed.nonempty [] hnil rfl).mp read).joined
  rw [List.append_nil] at hjoined
  have hpieces : Lexeme.pieces? ({} : Lexicon).symbols 0 line = some (marks.map Mark.lexeme) := by
    rw [← Lexeme.lex_pieces, read, ← marked]
    rfl
  have htext : (marks.map Mark.lexeme).flatMap Lexeme.text = line := by
    rw [← marked, List.flatMap_map]
    exact hjoined
  have hspelled := Lexeme.pieces?_spelledText hscan (by rw [htext, hpieces])
  -- and its symbols are known ones
  have hknown : ∀ name, Mark.symbol name ∈ marks → name ∈ ({} : Lexicon).symbols := by
    intro name hname
    have hmem : (Mark.symbol name).lexeme ∈ lexemes.map Lexeme.unplaced := by
      rw [marked]
      exact List.mem_map_of_mem hname
    obtain ⟨l, hl, heq⟩ := List.mem_map.mp hmem
    have hkind : l.kind = .symbol := congrArg Lexeme.kind heq
    have htext : l.text = name := congrArg Lexeme.text heq
    rw [← htext]
    exact Lexeme.mem_symbols_of_mem Lexeme.builtin_unclosed.exist read hl hkind
  have hstart : Token.Follows none Scan.start := ⟨rfl, rfl⟩
  obtain ⟨tokens, htokens, htokens'⟩ := Token.readsAlike marks hstart hscan hknown
  refine ⟨Token.insertProducts tokens, ?_, ?_⟩
  · rw [← Except.toOption_eq_some, tokenize_toOption, hpieces, Option.bind_some, Token.ofLexemes]
    exact congrArg (fun result => result.toOption.map Token.insertProducts) htokens
  · rw [← Except.toOption_eq_some, tokenize_toOption, hspelled, Option.bind_some, Token.ofLexemes]
    exact congrArg (fun result => result.toOption.map Token.insertProducts) (htokens' 0)

/-- Nested bars, next to a sign, spaces, a factorial, an implied product and a function. -/
theorem tokenize_bars_nested :
    ∃ tokens, ({} : Lexicon).tokenize "-||x| - 2|!(3)/sin|y|".toList = .ok tokens ∧
      ({} : Lexicon).tokenize "-abs(abs(x) - 2)!(3)/sinabs(y)".toList = .ok tokens := by
  let space : Mark := .plain .space [' ']
  let x : Mark := .plain .word ['x']
  let y : Mark := .plain .word ['y']
  let quotient : List Mark := [.leftParen, .plain .number ['3'], .rightParen, .symbol ['/'],
    .symbol "sin".toList, .opens, y, .closes]
  let marks : List Mark := [.symbol ['-'], .opens, .opens, x, .closes, space, .symbol ['-'], space,
    .plain .number ['2'], .closes, .symbol ['!']] ++ quotient
  let lexemes : List Lexeme :=
    [⟨.symbol, ['-'], 0⟩, ⟨.bar, ['|'], 1⟩, ⟨.bar, ['|'], 2⟩, ⟨.word, ['x'], 3⟩, ⟨.bar, ['|'], 4⟩,
      ⟨.space, [' '], 5⟩, ⟨.symbol, ['-'], 6⟩, ⟨.space, [' '], 7⟩, ⟨.number, ['2'], 8⟩,
      ⟨.bar, ['|'], 9⟩, ⟨.symbol, ['!'], 10⟩, ⟨.leftParen, ['('], 11⟩, ⟨.number, ['3'], 12⟩,
      ⟨.rightParen, [')'], 13⟩, ⟨.symbol, ['/'], 14⟩, ⟨.symbol, "sin".toList, 15⟩,
      ⟨.bar, ['|'], 18⟩, ⟨.word, ['y'], 19⟩, ⟨.bar, ['|'], 20⟩]
  have read : Lexeme.lex ({} : Lexicon).symbols "-||x| - 2|!(3)/sin|y|".toList = .ok lexemes := by
    decide +kernel
  have marked : lexemes.map Lexeme.unplaced = marks.map Mark.lexeme := by decide +kernel
  have hinner : Formed .expression [.opens, x, .closes, .symbol ['-'], .plain .number ['2']] :=
    .between (.bars (.single .word)) rfl rfl (.single .number)
  have hsine : Formed .operand [.symbol "sin".toList, .opens, y, .closes] :=
    .apply rfl rfl (.bars (.single .word))
  have hquotient : Formed .expression quotient :=
    .between (.group (.single .number)) rfl rfl (.single hsine)
  have hminus : Formed .operand [.symbol ['-'], .opens, .opens, x, .closes, .symbol ['-'],
      .plain .number ['2'], .closes, .symbol ['!']] :=
    .sign (.inr rfl) (.factorial (.bars hinner))
  have hvisible : marks.filter Mark.isVisible = [.symbol ['-'], .opens, .opens, x, .closes,
      .symbol ['-'], .plain .number ['2'], .closes, .symbol ['!']] ++ quotient := by
    decide +kernel
  have htext : marks.flatMap Mark.spelledText = "-abs(abs(x) - 2)!(3)/sinabs(y)".toList := by
    decide +kernel
  rw [← htext]
  exact tokenize_bars read marked (hvisible ▸ .product hminus hquotient (by decide))

end Lexicon

end DecimalCalc
