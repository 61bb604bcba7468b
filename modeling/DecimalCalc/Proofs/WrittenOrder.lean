import DecimalCalc.Expression.Builtin
import DecimalCalc.Proofs.Reordering
import Mathlib.Data.List.Induction
import Mathlib.Data.List.Perm.Basic

/-!
# The order in which tokens are written out

Reordering drops parentheses and separators and nothing else (`Token.isKept`). Numbers, and operators
after their operand, are written out as soon as they are read (`writtenAtOnce`). All other tokens
wait on the stack first (`Waits`), so they come after whatever was read before them and is written at
once.

Equal tokens may stand at several places of a row. To tell them apart, each token carries its place,
and what has been read is what has been written and what still waits (`Numbered`). **No place is
lost, none is taken twice, and no token that is written at once falls behind a later one**
(`reorder_order`).
-/

set_option autoImplicit false

namespace DecimalCalc

variable {registry : Registry}

/-- Whether reordering keeps a token. -/
def Token.isKept (t : Token) : Bool :=
  match t.kind with
  | .number | .operator | .function => true
  | _ => false

namespace ReversePolish

/-- Whether a token is written out as soon as it is read: a number, or an operator after its
operand. -/
def writtenAtOnce (registry : Registry) (t : Token) : Bool :=
  match t.kind with
  | .number => true
  | .operator => (registry.find? t.text).any Entry.isAfter
  | _ => false

theorem isKept_of_writtenAtOnce {t : Token} (h : writtenAtOnce registry t = true) :
    t.isKept = true := by
  cases hkind : t.kind <;> simp_all [writtenAtOnce, Token.isKept]

/-! ## What waits -/

/-- **A token that may wait**: a function, an open parenthesis, or an operator that does not come
after its operand. -/
def Waits (registry : Registry) (t : Token) : Prop :=
  (t.kind = .function ∨ t.kind = .leftParen ∨ t.kind = .operator) ∧
    writtenAtOnce registry t = false

theorem Waits.isKept {t : Token} (h : Waits registry t) (hopen : t.kind ≠ .leftParen) :
    t.isKept = true := by
  rcases h.1 with hkind | hkind | hkind
  · simp [Token.isKept, hkind]
  · exact absurd hkind hopen
  · simp [Token.isKept, hkind]

/-- A token that is written out at once leaves the stack alone. -/
theorem step_of_writtenAtOnce {t : Token} (h : writtenAtOnce registry t = true)
    (stack : List Token) : step registry stack t = .ok ([t], stack) := by
  cases hkind : t.kind with
  | number => exact step_of_number hkind stack
  | operator =>
      simp only [writtenAtOnce, hkind, Option.any_eq_true] at h
      obtain ⟨entry, hfind, hafter⟩ := h
      exact step_of_after hkind hfind hafter stack
  | _ => simp [writtenAtOnce, hkind] at h

/-- **Any other token waits**, and what it makes room for has waited. -/
theorem Move.waits {stack written stack' : List Token} {t : Token}
    (h : Move stack t written stack') (ht : writtenAtOnce registry t = false)
    (hstack : ∀ u ∈ stack, Waits registry u) :
    (∀ u ∈ written, Waits registry u ∧ u.isKept = true) ∧ ∀ u ∈ stack', Waits registry u := by
  -- what goes from the top of the stack is kept, as it opens no parenthesis
  have habove : ∀ {above below : List Token}, stack = above ++ below → Unopened above →
      (∀ u ∈ above, Waits registry u ∧ u.isKept = true) ∧ ∀ u ∈ below, Waits registry u := by
    rintro above below rfl hunopened
    refine ⟨fun u hu => ?_, fun u hu => hstack u (List.mem_append_right _ hu)⟩
    have hwaits := hstack u (List.mem_append_left _ hu)
    exact ⟨hwaits, hwaits.isKept (hunopened u hu)⟩
  cases h with
  | write kind =>
      rcases kind with kind | kind
      · simp [writtenAtOnce, kind] at ht
      · refine ⟨fun u hu => ?_, hstack⟩
        rw [List.mem_singleton.mp hu]
        exact ⟨⟨.inr (.inr kind), ht⟩, by simp [Token.isKept, kind]⟩
  | wait kind =>
      exact ⟨nofun, List.forall_mem_cons.mpr ⟨⟨by tauto, ht⟩, hstack⟩⟩
  | yield kind heq hunopened =>
      obtain ⟨hwritten, hbelow⟩ := habove heq hunopened
      exact ⟨hwritten, List.forall_mem_cons.mpr ⟨⟨.inr (.inr kind), ht⟩, hbelow⟩⟩
  | close kind open' heq hunopened =>
      obtain ⟨hwritten, hbelow⟩ := habove heq hunopened
      exact ⟨hwritten, (List.forall_mem_cons.mp hbelow).2⟩
  | closeCall kind open' call heq hunopened =>
      obtain ⟨hwritten, hbelow⟩ := habove heq hunopened
      obtain ⟨-, hcall, hbelow⟩ := List.forall_mem_cons.mp hbelow |>.imp_right
        List.forall_mem_cons.mp
      refine ⟨List.forall_mem_append.mpr ⟨hwritten, fun u hu => ?_⟩, hbelow⟩
      rw [List.mem_singleton.mp hu]
      exact ⟨hcall, hcall.isKept (by simp [call])⟩
  | separate kind open' heq hunopened => exact habove heq hunopened

/-! ## Tokens with their places -/

/-- Those tokens, each with its place, that are kept. -/
def keptOf (row : List (Token × Nat)) : List (Token × Nat) := row.filter (·.1.isKept)

@[simp] theorem keptOf_append (row row' : List (Token × Nat)) :
    keptOf (row ++ row') = keptOf row ++ keptOf row' := List.filter_append ..

theorem keptOf_cons_of_dropped {u : Token × Nat} (h : u.1.isKept = false)
    (row : List (Token × Nat)) : keptOf (u :: row) = keptOf row :=
  List.filter_cons_of_neg (by simp [h])

theorem keptOf_eq_self {row : List (Token × Nat)} (h : ∀ u ∈ row, u.1.isKept = true) :
    keptOf row = row :=
  List.filter_eq_self.mpr h

/-- **A move keeps places.** With the tokens that wait and the one that is read each at its place,
the same kept tokens are written out or wait at the same places. -/
theorem Move.numbered {stack : List (Token × Nat)} {t : Token} {written stack' : List Token}
    (h : Move (stack.map Prod.fst) t written stack') (place : Nat) :
    ∃ out left : List (Token × Nat), out.map Prod.fst = written ∧ left.map Prod.fst = stack' ∧
      (keptOf (out ++ left)).Perm (keptOf ((t, place) :: stack)) := by
  have hdropped : ∀ {u : Token × Nat}, u.1.kind = .leftParen ∨ u.1.kind = .rightParen ∨
      u.1.kind = .separator → u.1.isKept = false := by
    rintro u (hkind | hkind | hkind) <;> simp [Token.isKept, hkind]
  cases h with
  | write kind => exact ⟨[(t, place)], stack, rfl, rfl, .refl _⟩
  | wait kind => exact ⟨[], (t, place) :: stack, rfl, rfl, .refl _⟩
  | yield kind heq hunopened =>
      obtain ⟨above, below, rfl, rfl, rfl⟩ := List.map_eq_append_iff.mp heq
      refine ⟨above, (t, place) :: below, rfl, rfl, ?_⟩
      exact List.Perm.filter _ List.perm_middle
  | close kind open' heq hunopened =>
      obtain ⟨above, rest, rfl, rfl, hrest⟩ := List.map_eq_append_iff.mp heq
      obtain ⟨paren, below, rfl, rfl, rfl⟩ := List.map_eq_cons_iff.mp hrest
      refine ⟨above, below, rfl, rfl, ?_⟩
      rw [keptOf_cons_of_dropped (hdropped (.inr (.inl kind))), keptOf_append, keptOf_append,
        keptOf_cons_of_dropped (hdropped (.inl open'))]
  | closeCall kind open' call heq hunopened =>
      obtain ⟨above, rest, rfl, rfl, hrest⟩ := List.map_eq_append_iff.mp heq
      obtain ⟨paren, rest', rfl, rfl, hrest'⟩ := List.map_eq_cons_iff.mp hrest
      obtain ⟨function, below, rfl, rfl, rfl⟩ := List.map_eq_cons_iff.mp hrest'
      refine ⟨above ++ [function], below, by simp, rfl, ?_⟩
      rw [keptOf_cons_of_dropped (hdropped (.inr (.inl kind))), keptOf_append above,
        keptOf_cons_of_dropped (hdropped (.inl open')), List.append_assoc, keptOf_append above]
      rfl
  | separate kind open' heq hunopened =>
      obtain ⟨above, rest, rfl, rfl, hrest⟩ := List.map_eq_append_iff.mp heq
      refine ⟨above, rest, rfl, hrest, ?_⟩
      rw [keptOf_cons_of_dropped (hdropped (.inr (.inr kind)))]

/-- **What has been read is written or waits.** The tokens that have been read are kept at their
places, and no token that is written at once comes after a later one. -/
structure Numbered (registry : Registry) (tokens : List Token) (out stack : List (Token × Nat)) :
    Prop where
  kept : (keptOf stack ++ out).Perm (keptOf tokens.zipIdx)
  waits : ∀ u ∈ stack, Waits registry u.1
  ordered : out.Pairwise fun u v => writtenAtOnce registry v.1 = true → u.2 < v.2

theorem numbered_nil : Numbered registry [] [] [] :=
  ⟨.refl _, nofun, .nil⟩

variable {tokens : List Token} {out stack : List (Token × Nat)} {t : Token}

theorem Numbered.lt (h : Numbered registry tokens out stack) :
    ∀ u ∈ out, u.2 < tokens.length := by
  intro u hu
  have hmem : u ∈ keptOf tokens.zipIdx := h.kept.subset (List.mem_append_right _ hu)
  simpa using List.snd_lt_of_mem_zipIdx (List.mem_of_mem_filter hmem)

theorem zipIdx_concat (tokens : List Token) (t : Token) :
    (tokens ++ [t]).zipIdx = tokens.zipIdx ++ [(t, tokens.length)] := by
  simp [List.zipIdx_append]

/-- A token that is written at once comes after all that has been written. -/
theorem Numbered.write (h : Numbered registry tokens out stack)
    (ht : writtenAtOnce registry t = true) :
    Numbered registry (tokens ++ [t]) (out ++ [(t, tokens.length)]) stack := by
  refine ⟨?_, h.waits, ?_⟩
  · have hkept : keptOf [(t, tokens.length)] = [(t, tokens.length)] :=
      keptOf_eq_self (List.forall_mem_singleton.mpr (isKept_of_writtenAtOnce ht))
    rw [zipIdx_concat, keptOf_append, hkept, ← List.append_assoc]
    exact h.kept.append_right _
  · rw [List.pairwise_append]
    refine ⟨h.ordered, List.pairwise_singleton _ _, fun u hu v hv _ => ?_⟩
    rw [List.mem_singleton.mp hv]
    exact h.lt u hu

/-- Among tokens that have waited there is nothing that is written at once. -/
theorem pairwise_of_waits {row : List (Token × Nat)} (h : ∀ u ∈ row, Waits registry u.1) :
    row.Pairwise fun u v => writtenAtOnce registry v.1 = true → u.2 < v.2 := by
  refine List.pairwise_of_forall_mem_list fun u _ v hv honce => ?_
  rw [(h v hv).2] at honce
  cases honce

/-- What is written out after it has waited may come after later tokens. -/
theorem Numbered.move (h : Numbered registry tokens out stack) {more left : List (Token × Nat)}
    (hmore : ∀ u ∈ more, Waits registry u.1 ∧ u.1.isKept = true)
    (hleft : ∀ u ∈ left, Waits registry u.1)
    (hkept : (keptOf (more ++ left)).Perm (keptOf ((t, tokens.length) :: stack))) :
    Numbered registry (tokens ++ [t]) (out ++ more) left := by
  refine ⟨?_, hleft, ?_⟩
  · -- how often a token stands at a place is the same before and after
    refine List.perm_iff_count.mpr fun u => ?_
    have hread := h.kept.count_eq u
    have hmoved := hkept.count_eq u
    rw [keptOf_append, keptOf_eq_self fun u hu => (hmore u hu).2, ← List.singleton_append,
      keptOf_append] at hmoved
    rw [zipIdx_concat, keptOf_append]
    simp only [List.count_append] at hread hmoved ⊢
    omega
  · rw [List.pairwise_append]
    refine ⟨h.ordered, ?_, fun u _ v hv honce => ?_⟩
    · exact pairwise_of_waits fun u hu => (hmore u hu).1
    · rw [(hmore v hv).1.2] at honce
      cases honce

/-- **A run keeps places**, whatever it has read. -/
theorem advance_numbered (tokens : List Token) : ∀ {written waiting : List Token},
    advance registry [] tokens = .ok (written, waiting) →
      ∃ out stack : List (Token × Nat), out.map Prod.fst = written ∧
        stack.map Prod.fst = waiting ∧ Numbered registry tokens out stack := by
  induction tokens using List.reverseRecOn with
  | nil =>
      intro written waiting h
      obtain ⟨rfl, rfl⟩ := Prod.mk.inj (Except.ok.inj h)
      exact ⟨[], [], rfl, rfl, numbered_nil⟩
  | append_singleton tokens t ih =>
      intro written waiting h
      obtain ⟨before, middle, more, hbefore, hstep, rfl⟩ := advance_concat_inv h
      obtain ⟨out, stack, rfl, rfl, hnumbered⟩ := ih hbefore
      cases honce : writtenAtOnce registry t with
      | true =>
          rw [step_of_writtenAtOnce honce] at hstep
          obtain ⟨rfl, rfl⟩ := Prod.mk.inj (Except.ok.inj hstep)
          exact ⟨_, stack, by simp, rfl, hnumbered.write honce⟩
      | false =>
          have hmove := move_of_step hstep
          obtain ⟨hwritten, hwaits⟩ := hmove.waits honce fun u hu => by
            obtain ⟨v, hv, rfl⟩ := List.mem_map.mp hu
            exact hnumbered.waits v hv
          obtain ⟨out', left, rfl, rfl, hkept⟩ := hmove.numbered tokens.length
          refine ⟨out ++ out', left, by simp, rfl, hnumbered.move (fun u hu => ?_) (fun u hu => ?_)
            hkept⟩
          · exact hwritten u.1 (List.mem_map_of_mem hu)
          · exact hwaits u.1 (List.mem_map_of_mem hu)

/-! ## The order -/

/-- A row of tokens that stand in the order of their places is determined by its tokens. -/
theorem eq_of_perm_of_places {row row' : List (Token × Nat)} (h : row.Perm row')
    (hrow : row.Pairwise (·.2 < ·.2)) (hrow' : row'.Pairwise (·.2 < ·.2)) : row = row' := by
  refine h.eq_of_pairwise (fun u v _ _ huv hvu => ?_) hrow hrow'
  omega

theorem pairwise_zipIdx (tokens : List Token) : tokens.zipIdx.Pairwise (·.2 < ·.2) := by
  have hplaces : (tokens.zipIdx.map Prod.snd).Pairwise (· < ·) := by
    rw [List.zipIdx_map_snd]
    exact List.pairwise_lt_range' 1
  exact List.pairwise_map.mp hplaces

theorem map_filter_fst (P : Token → Bool) (row : List (Token × Nat)) :
    (row.filter fun u => P u.1).map Prod.fst = (row.map Prod.fst).filter P :=
  List.filter_map.symm

/-- **What reordering keeps, and in which order it writes it out.** The tokens that are written out
are the numbers, operators and functions of the row, each at one place of the row and all places
taken. Of two tokens the later one is written out first only if the earlier one is neither a number
nor an operator after its operand. So these are written out in the order of the row, and before every
operator between operands and every function that comes after them. -/
theorem reorder_order {tokens out : List Token} (h : reorder registry tokens = .ok out) :
    out.Perm (tokens.filter Token.isKept) ∧
      out.filter (writtenAtOnce registry) = tokens.filter (writtenAtOnce registry) ∧
      ∃ placed : List (Token × Nat), placed.map Prod.fst = out ∧
        placed.Perm (tokens.zipIdx.filter (·.1.isKept)) ∧
        placed.Pairwise fun u v => writtenAtOnce registry v.1 = true → u.2 < v.2 := by
  obtain ⟨written, waiting, hread, hunopened, rfl⟩ := reorder_inv h
  obtain ⟨out, stack, rfl, rfl, hnumbered⟩ := advance_numbered tokens hread
  -- at the end what still waits is written out as well, and nothing of it is dropped
  have hkept : ∀ u ∈ stack, u.1.isKept = true := fun u hu =>
    (hnumbered.waits u hu).isKept (hunopened u.1 (List.mem_map_of_mem hu))
  have hperm : (out ++ stack).Perm (keptOf tokens.zipIdx) := by
    have hall := hnumbered.kept
    rw [keptOf_eq_self hkept] at hall
    exact List.perm_append_comm.trans hall
  have hordered : (out ++ stack).Pairwise fun u v =>
      writtenAtOnce registry v.1 = true → u.2 < v.2 := by
    rw [List.pairwise_append]
    refine ⟨hnumbered.ordered, pairwise_of_waits hnumbered.waits, fun u _ v hv honce => ?_⟩
    rw [(hnumbered.waits v hv).2] at honce
    cases honce
  refine ⟨?_, ?_, out ++ stack, List.map_append, hperm, hordered⟩
  · have htokens := hperm.map Prod.fst
    rwa [List.map_append, keptOf, map_filter_fst, List.zipIdx_map_fst] at htokens
  · -- both sides are the tokens that are written at once, in the order of their places
    have hsame : (out ++ stack).filter (fun u => writtenAtOnce registry u.1) =
        tokens.zipIdx.filter fun u => writtenAtOnce registry u.1 := by
      refine eq_of_perm_of_places ?_ ?_ ((pairwise_zipIdx tokens).filter _)
      · have honce := hperm.filter fun u => writtenAtOnce registry u.1
        rw [keptOf, List.filter_filter] at honce
        refine honce.trans (.of_eq (List.filter_congr fun u _ => ?_))
        cases hu : writtenAtOnce registry u.1 with
        | true => rw [isKept_of_writtenAtOnce hu]; rfl
        | false => rfl
      · exact (hordered.filter _).imp_of_mem fun _ hv hlt => hlt (List.mem_filter.mp hv).2
    have htokens := congrArg (List.map Prod.fst) hsame
    rwa [map_filter_fst, map_filter_fst, List.map_append, List.zipIdx_map_fst] at htokens

/-- In the malformed row `* 3 ( sin 2 ! ) 3` the numbers and the factorial keep their order, and the
product, which comes first, is written out last. -/
theorem reorder_order_malformed :
    ∃ out, reorder .builtin [Token.operator ['*'], Token.number ['3'], Token.leftParen,
        Token.function "sin".toList, Token.number ['2'], Token.operator ['!'], Token.rightParen,
        Token.number ['3']] = .ok out ∧
      out.Perm [Token.operator ['*'], Token.number ['3'], Token.function "sin".toList,
        Token.number ['2'], Token.operator ['!'], Token.number ['3']] ∧
      out.filter (writtenAtOnce .builtin) =
        [Token.number ['3'], Token.number ['2'], Token.operator ['!'], Token.number ['3']] ∧
      out.getLast? = some (Token.operator ['*']) := by
  have h : reorder .builtin [Token.operator ['*'], Token.number ['3'], Token.leftParen,
      Token.function "sin".toList, Token.number ['2'], Token.operator ['!'], Token.rightParen,
      Token.number ['3']] = .ok [Token.number ['3'], Token.number ['2'], Token.operator ['!'],
        Token.function "sin".toList, Token.number ['3'], Token.operator ['*']] := by
    decide +kernel
  exact ⟨_, h, (reorder_order h).1, (reorder_order h).2.1, rfl⟩

end ReversePolish

end DecimalCalc
