import DecimalCalc.Proofs.TokenPlaces

/-!
# Implied products

Two neighbouring tokens may ask for a product between them (`Token.AsksProduct`): the left one ends an
operand, and the right one starts another. Writing out the products fills **the gaps that ask for one
and no others** (`Token.insertProducts_fills_gaps`). A product neither ends an operand nor starts one,
so no gap is left that asks, and what is done for two rows apart is done for the row that they make
together, except in the gap between them.
-/

set_option autoImplicit false

namespace DecimalCalc

namespace Token

variable {left right t : Token} {tokens : List Token}

/-! ## Gaps -/

/-- **The gaps that ask for a product.** An operand has ended, and a constant, a variable, an opening
parenthesis or a function comes next. A number asks for a product after a closing parenthesis only,
so that two numbers stay apart. -/
def AsksProduct (left right : Token) : Prop :=
  AfterOperand (some left) ∧ (right.kind = .constant ∨ right.kind = .reference ∨
      right.kind = .leftParen ∨ right.kind = .function) ∨
    left.kind = .rightParen ∧ right.kind = .number

theorem impliesProduct_iff : impliesProduct left right = true ↔ AsksProduct left right := by
  have hends : left.endsOperand = true ↔ AfterOperand (some left) := by
    rw [← any_endsOperand_iff, Option.any_some]
  have hparen : left.kind = .rightParen → AfterOperand (some left) := fun h => by
    simp [AfterOperand, h]
  rw [impliesProduct, Bool.and_eq_true, hends, AsksProduct]
  cases hkind : right.kind with
  | number => simpa using hparen
  | _ => simp [startsOperand, hkind]

instance : Decidable (AsksProduct left right) := decidable_of_iff _ impliesProduct_iff

/-- A product asks for none before it. -/
theorem not_asksProduct_product (left : Token) : ¬AsksProduct left (operator productSymbol) := by
  simp [AsksProduct, operator]

/-- A product asks for none after it. -/
theorem not_product_asksProduct (right : Token) : ¬AsksProduct (operator productSymbol) right := by
  simp [AsksProduct, AfterOperand, operator, productSymbol]

/-- **What is written in the gap between two tokens**, either of which may be missing. -/
def gap : Option Token → Option Token → List Token
  | some left, some right => if AsksProduct left right then [operator ['*']] else []
  | _, _ => []

/-! ## Filling the gaps -/

/-- Products are written out gap by gap. -/
theorem insertProducts_cons (t : Token) (tokens : List Token) :
    insertProducts (t :: tokens) = t :: (gap (some t) tokens.head? ++ insertProducts tokens) := by
  cases tokens with
  | nil => rfl
  | cons next rest =>
      rw [insertProducts, productsAfter, List.head?_cons, gap, insertProducts]
      by_cases h : AsksProduct t next
      · rw [if_pos h, if_pos (impliesProduct_iff.mpr h)]
        rfl
      · rw [if_neg h, if_neg (mt impliesProduct_iff.mp h)]
        rfl

/-- **Each token is followed by what its gap asks for.** -/
theorem insertProducts_eq (tokens : List Token) : insertProducts tokens =
    tokens.zipIdx.flatMap fun (t, i) => t :: gap (some t) tokens[i + 1]? := by
  induction tokens with
  | nil => rfl
  | cons t tokens ih =>
      rw [insertProducts_cons, ih, List.head?_eq_getElem?, List.zipIdx_cons, List.zipIdx_succ,
        List.flatMap_cons, List.flatMap_map]
      rfl

/-- **Two rows are filled apart**, and then the gap between them. -/
theorem insertProducts_join (ts us : List Token) : insertProducts (ts ++ us) =
    insertProducts ts ++ gap ts.getLast? us.head? ++ insertProducts us := by
  induction ts with
  | nil => rfl
  | cons t ts ih =>
      rw [List.cons_append, insertProducts_cons, ih, insertProducts_cons]
      cases ts with
      | nil => simp [gap, insertProducts]
      | cons next ts => simp [List.getLast?_cons_cons]

/-- **No gap is left that asks for a product.** -/
theorem isChain_insertProducts (tokens : List Token) :
    (insertProducts tokens).IsChain fun left right => ¬AsksProduct left right := by
  induction tokens with
  | nil => exact .nil
  | cons t tokens ih =>
      rw [insertProducts_cons]
      cases tokens with
      | nil => exact .singleton t
      | cons next rest =>
          rw [insertProducts_cons] at ih ⊢
          rw [List.head?_cons, gap]
          split
          · exact .cons_cons (not_asksProduct_product t)
              (.cons_cons (not_product_asksProduct next) ih)
          · rename_i hasks
            exact .cons_cons hasks ih

/-- **Products are written out in the gaps that ask for one, and nowhere else.** Each token of a row
is followed by a product exactly if its gap asks for one, and by the next token; no gap is left that
asks, so writing products out again changes nothing; and two rows one after the other are written out
like each of them, with a product between them exactly if the gap between them asks for one. -/
theorem insertProducts_fills_gaps (ts : List Token) :
    (insertProducts ts = ts.zipIdx.flatMap fun (t, i) => t :: gap (some t) ts[i + 1]?) ∧
      ((insertProducts ts).IsChain fun left right => ¬AsksProduct left right) ∧
      insertProducts (insertProducts ts) = insertProducts ts ∧
      ∀ us, insertProducts (ts ++ us) =
        insertProducts ts ++ gap ts.getLast? us.head? ++ insertProducts us :=
  ⟨insertProducts_eq ts, isChain_insertProducts ts, insertProducts_insertProducts ts,
    insertProducts_join ts⟩

/-- A number asks for a product after a parenthesis, but not after a number or a factorial. -/
example : spaced (insertProducts [.leftParen, .number ['2'], .rightParen, .number ['3'],
    .number ['4'], .operator ['!'], .number ['5'], .reference ['x']]) =
      "( 2 ) * 3 4 ! 5 * x".toList := by
  decide

end Token

end DecimalCalc
