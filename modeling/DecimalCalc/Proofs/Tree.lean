import DecimalCalc.Machine

/-!
# Expression trees

The second reading of an expression, beside its row of tokens: a tree whose leaves are numbers and
whose inner nodes are symbols over their operands. `postorder` writes a tree down as the row of
tokens in which each symbol comes after its operands, and `value` computes it by recursion, without
any stack. A tree `Fits` a registry when each symbol has as many operands as its entry takes.

The main statement is `postorder_inj`: a row of tokens is the postorder of at most one tree that
fits. It is proved by reading the row back (`readBack`).
-/

set_option autoImplicit false

namespace DecimalCalc

/-- A number as it is written, or a symbol over its operands, the leftmost first. -/
inductive Tree
  | number (text : List Char)
  | node (symbol : Token) (operands : List Tree)

namespace Tree

/-! ## Postorder -/

mutual

/-- The tokens of a tree, each symbol after its operands. -/
def postorder : Tree → List Token
  | .number text => [Token.number text]
  | .node symbol operands => postorders operands ++ [symbol]

/-- The tokens of some trees, one tree after the other. -/
def postorders : List Tree → List Token
  | [] => []
  | t :: ts => t.postorder ++ postorders ts

end

@[simp] theorem postorders_append (ts us : List Tree) :
    postorders (ts ++ us) = postorders ts ++ postorders us := by
  induction ts with
  | nil => rfl
  | cons t ts ih => simp only [List.cons_append, postorders, ih, List.append_assoc]

mutual

/-- A tree's subtrees in postorder: those of the operands from left to right, then the tree. -/
def subtrees : Tree → List Tree
  | .number text => [.number text]
  | .node symbol operands => subtreesOf operands ++ [.node symbol operands]

/-- The subtrees of some trees, one tree after the other. -/
def subtreesOf : List Tree → List Tree
  | [] => []
  | t :: ts => t.subtrees ++ subtreesOf ts

end

/-! ## Trees that fit a registry -/

/-- Each symbol is an operator or a function of the registry and has as many operands as its entry
takes. -/
inductive Fits (registry : Registry) : Tree → Prop
  | number (text : List Char) : Fits registry (.number text)
  | node {symbol : Token} {entry : Entry} {operands : List Tree}
      (kind : symbol.kind = .operator ∨ symbol.kind = .function)
      (listed : registry.lookup symbol.text = .ok entry)
      (arity : operands.length = entry.arity)
      (fits : ∀ t ∈ operands, Fits registry t) : Fits registry (.node symbol operands)

/-- Adds a token to a row of trees, the last tree first: a number is a tree of its own, and a symbol
takes as many trees as its entry has operands. -/
def grow (registry : Registry) (trees : List Tree) (token : Token) : Option (List Tree) :=
  match token.kind with
  | .number => some (.number token.text :: trees)
  | .operator | .function =>
    match registry.lookup token.text with
    | .error _ => none
    | .ok entry =>
      if trees.length < entry.arity then none
      else some (.node token (trees.take entry.arity).reverse :: trees.drop entry.arity)
  | _ => none

/-- Reads a row of tokens in postorder back, after some trees. -/
def readBack (registry : Registry) (trees : List Tree) (tokens : List Token) :
    Option (List Tree) :=
  tokens.foldlM (grow registry) trees

theorem readBack_append (registry : Registry) (trees : List Tree) (ts us : List Token) :
    readBack registry trees (ts ++ us) =
      (readBack registry trees ts).bind fun trees => readBack registry trees us :=
  List.foldlM_append

/-- A symbol takes the trees that were read last, so it undoes the last step of `postorder`. -/
theorem grow_node {registry : Registry} {symbol : Token} {entry : Entry} {operands : List Tree}
    (kind : symbol.kind = .operator ∨ symbol.kind = .function)
    (listed : registry.lookup symbol.text = .ok entry)
    (arity : operands.length = entry.arity) (trees : List Tree) :
    grow registry (operands.reverse ++ trees) symbol = some (.node symbol operands :: trees) := by
  have hlen : operands.reverse.length = entry.arity := by simpa using arity
  have htake : (operands.reverse ++ trees).take entry.arity = operands.reverse := by
    rw [← hlen, List.take_left]
  have hdrop : (operands.reverse ++ trees).drop entry.arity = trees := by
    rw [← hlen, List.drop_left]
  have hroom : ¬(operands.reverse ++ trees).length < entry.arity := by
    rw [List.length_append, hlen]; omega
  rcases kind with kind | kind <;>
    simp only [grow, kind, listed, hroom, if_false, htake, hdrop, List.reverse_reverse]

mutual

/-- **Reading back undoes `postorder`**, whatever was read before. -/
theorem readBack_postorder {registry : Registry} : ∀ {t : Tree}, t.Fits registry →
    ∀ trees, readBack registry trees t.postorder = some (t :: trees)
  | .number text, _, trees => rfl
  | .node symbol operands, .node kind listed arity fits, trees => by
      rw [postorder, readBack_append, readBack_postorders fits, Option.bind_some]
      show (grow registry (operands.reverse ++ trees) symbol).bind some = _
      rw [grow_node kind listed arity]
      rfl

/-- Trees are read back one after the other, each onto the ones before it. -/
theorem readBack_postorders {registry : Registry} : ∀ {ts : List Tree},
    (∀ t ∈ ts, t.Fits registry) →
    ∀ trees, readBack registry trees (postorders ts) = some (ts.reverse ++ trees)
  | [], _, trees => rfl
  | t :: ts, fits, trees => by
      rw [postorders, readBack_append, readBack_postorder (fits t (by simp)), Option.bind_some,
        readBack_postorders fun u hu => fits u (by simp [hu])]
      simp

end

/-- **Postfix notation can be read in one way only**: trees that fit a registry and have the same
postorder are the same. -/
theorem postorder_inj {registry : Registry} {t u : Tree} (ht : t.Fits registry)
    (hu : u.Fits registry) (h : t.postorder = u.postorder) : t = u := by
  have hread := readBack_postorder ht []
  rw [h, readBack_postorder hu []] at hread
  simpa using hread.symm

/-- The two ways to add a token: a number stands alone, and a symbol takes over the last trees. -/
theorem grow_cases {registry : Registry} {trees trees' : List Tree} {token : Token}
    (h : grow registry trees token = some trees') :
    (∃ text, token = Token.number text ∧ trees' = .number text :: trees) ∨
      ∃ operands rest entry, (token.kind = .operator ∨ token.kind = .function) ∧
        registry.lookup token.text = .ok entry ∧ operands.length = entry.arity ∧
        trees = operands.reverse ++ rest ∧ trees' = .node token operands :: rest := by
  by_cases hnumber : token.kind = .number
  · simp only [grow, hnumber] at h
    refine Or.inl ⟨token.text, ?_, (Option.some.inj h).symm⟩
    rw [Token.number, ← hnumber]
  · have kind : token.kind = .operator ∨ token.kind = .function := by
      cases hkind : token.kind <;> simp_all [grow]
    refine Or.inr ?_
    cases listed : registry.lookup token.text with
    | error cause => rcases kind with kind | kind <;> simp [grow, kind, listed] at h
    | ok entry =>
        by_cases hroom : trees.length < entry.arity
        · rcases kind with kind | kind <;> simp [grow, kind, listed, hroom] at h
        · refine ⟨(trees.take entry.arity).reverse, trees.drop entry.arity, entry, kind, rfl,
            ?_, by simp, ?_⟩
          · rw [List.length_reverse, List.length_take]; omega
          · rcases kind with kind | kind <;>
              simpa only [grow, kind, listed, hroom, if_false, Option.some.injEq, eq_comm] using h

/-- What a token adds to a row of trees: all trees still fit, and their postorder is longer by that
token. -/
theorem grow_sound {registry : Registry} {trees trees' : List Tree} {token : Token}
    (h : grow registry trees token = some trees') (hfits : ∀ t ∈ trees, t.Fits registry) :
    (∀ t ∈ trees', t.Fits registry) ∧
      postorders trees'.reverse = postorders trees.reverse ++ [token] := by
  obtain ⟨text, rfl, rfl⟩ | ⟨operands, rest, entry, kind, listed, arity, rfl, rfl⟩ := grow_cases h
  · constructor
    · intro t ht
      rcases List.mem_cons.mp ht with rfl | ht
      · exact .number text
      · exact hfits t ht
    · rw [List.reverse_cons, postorders_append]
      simp [postorders, postorder]
  · constructor
    · intro t ht
      rcases List.mem_cons.mp ht with rfl | ht
      · exact .node kind listed arity fun u hu => hfits u (by simp [hu])
      · exact hfits t (by simp [ht])
    · rw [List.reverse_cons, postorders_append, List.reverse_append, postorders_append]
      simp [postorders, postorder]

/-- Whatever can be read back is the postorder of the trees that are read. -/
theorem readBack_sound {registry : Registry} {tokens : List Token} :
    ∀ {trees trees' : List Tree}, readBack registry trees tokens = some trees' →
      (∀ t ∈ trees, t.Fits registry) →
      (∀ t ∈ trees', t.Fits registry) ∧
        postorders trees'.reverse = postorders trees.reverse ++ tokens := by
  induction tokens with
  | nil =>
      intro trees trees' h hfits
      obtain rfl := Option.some.inj h
      exact ⟨hfits, by simp⟩
  | cons token tokens ih =>
      intro trees trees' h hfits
      obtain ⟨next, hgrow, hrest⟩ := Option.bind_eq_some_iff.mp h
      obtain ⟨hfits', hnext⟩ := grow_sound hgrow hfits
      obtain ⟨hfits'', hlast⟩ := ih hrest hfits'
      exact ⟨hfits'', by rw [hlast, hnext, List.append_assoc, List.singleton_append]⟩

end Tree

end DecimalCalc
