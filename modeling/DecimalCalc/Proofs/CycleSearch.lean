import DecimalCalc.Proofs.Resolution
import DecimalCalc.References

/-!
# The search for cyclic references

The search visits a name together with the chain of names that led to it. Whatever order the targets
of a name are visited in, two things hold of all names that are done: they lead to no cycle, and so
do their targets, which were done before. So a name that was done on one chain hides no cycle on
another one, and a search that comes to its end has found that there is none
(`References.check_eq_ok`). A name that is met again on its own chain closes a loop
(`References.check_eq_error`). The depth that the search counts down is not used up, since a chain
holds different names of expressions.

Evaluation looks for cycles in a way of its own. Both agree, as both are right about the same
references (`Calculator.checkVariables_finds_cycles`).
-/

set_option autoImplicit false

namespace DecimalCalc

open Relation (ReflTransGen TransGen)

namespace References

variable {references : References} {name target : List Char} {chain names done : List (List Char)}

/-- A name leads to its targets. -/
def Links (references : References) (name target : List Char) : Prop :=
  target ∈ references.targets name

theorem mem_names_of_links (h : references.Links name target) :
    name ∈ references.map Prod.fst := by
  rw [Links, targets] at h
  cases hlookup : references.lookup name with
  | none =>
      rw [hlookup] at h
      cases h
  | some others =>
      obtain ⟨before, after, rfl, _⟩ := List.lookup_eq_some_iff.mp hlookup
      simp

/-! ## The chain of a visit -/

theorem exists_dropWhile_eq (h : name ∈ chain) : ∃ before after,
    chain = before ++ name :: after ∧ chain.dropWhile (· ≠ name) = name :: after := by
  induction chain with
  | nil => cases h
  | cons first chain ih =>
      by_cases heq : first = name
      · subst heq
        exact ⟨[], chain, rfl, by simp⟩
      · obtain ⟨before, after, rfl, hdrop⟩ := ih (List.mem_of_ne_of_mem (Ne.symm heq) h)
        exact ⟨first :: before, after, rfl, by simpa [heq] using hdrop⟩

/-- **A name that is met again on its own chain closes a loop.** -/
theorem loop_of_mem (linked : (chain ++ [name]).IsChain references.Links) (once : chain.Nodup)
    (old : name ∈ chain) :
    Loop references.Links (chain.dropWhile (· ≠ name) ++ [name]) := by
  obtain ⟨before, after, rfl, hdrop⟩ := exists_dropWhile_eq old
  rw [hdrop]
  rw [List.append_assoc] at linked
  have hround : ((name :: after) ++ [name]).IsChain references.Links := linked.right_of_append
  refine ⟨lasso_concat hround (List.nodup_append.mp once).2.1 List.mem_cons_self, ?_⟩
  rw [List.getLast?_concat]
  rfl

/-- A chain is no longer than the list of all names. -/
theorem length_le_of_linked (linked : (chain ++ [name]).IsChain references.Links)
    (once : chain.Nodup) : chain.length ≤ references.length := by
  have hsub : chain ⊆ references.map Prod.fst := by
    intro other hother
    obtain ⟨target, hlinks⟩ := exists_of_isChain linked other hother
    exact mem_names_of_links hlinks
  calc chain.length
      ≤ (references.map Prod.fst).length := (once.subperm hsub).length_le
    _ = references.length := List.length_map _

/-! ## What a search answers -/

/-- The names lead to no cycle. -/
def Ends (references : References) (names : List (List Char)) : Prop :=
  ∀ name ∈ names, Acc (flip references.Links) name

/-- **What the search answers** that visits `names` after those that are done: more names are done,
the visited ones among them, and all of these lead to no cycle; or else a loop is found. -/
def Answers (references : References) (names done : List (List Char)) :
    Except Fault (List (List Char)) → Prop
  | .ok done' => done ⊆ done' ∧ names ⊆ done' ∧ references.Ends done'
  | .error fault => ∃ chain, fault = .cyclicReference chain ∧ Loop references.Links chain

theorem answers_old (hdone : references.Ends done) (old : name ∈ done) :
    references.Answers [name] done (.ok done) :=
  ⟨List.Subset.refl done, List.cons_subset.mpr ⟨old, List.nil_subset done⟩, hdone⟩

/-- **Visiting some names one after the other** answers for all of them. -/
theorem answers_foldlM {step : List (List Char) → List Char → Except Fault (List (List Char))}
    (hstep : ∀ name ∈ names, ∀ done, references.Ends done →
      references.Answers [name] done (step done name)) :
    ∀ done, references.Ends done → references.Answers names done (names.foldlM step done) := by
  induction names with
  | nil => exact fun done hdone => ⟨List.Subset.refl done, List.nil_subset done, hdone⟩
  | cons name names ih =>
      intro done hdone
      have hfirst := hstep name List.mem_cons_self done hdone
      rw [List.foldlM_cons]
      cases hvisit : step done name with
      | error fault =>
          rw [hvisit] at hfirst
          exact hfirst
      | ok middle =>
          rw [hvisit] at hfirst
          obtain ⟨hmore, hname, hmiddle⟩ := hfirst
          -- the other names are visited with what is done after the first one
          have hrest := ih (fun other hother => hstep other (List.mem_cons_of_mem name hother))
            middle hmiddle
          show references.Answers (name :: names) done (names.foldlM step middle)
          cases hrests : names.foldlM step middle with
          | error fault =>
              rw [hrests] at hrest
              exact hrest
          | ok done' =>
              rw [hrests] at hrest
              obtain ⟨hmore', hnames, hdone'⟩ := hrest
              refine ⟨List.Subset.trans hmore hmore', List.cons_subset.mpr ⟨?_, hnames⟩, hdone'⟩
              exact hmore' (hname List.mem_cons_self)

/-- A name is done when its targets are. -/
theorem answers_cons {result : Except Fault (List (List Char))}
    (h : references.Answers (references.targets name) done result) :
    references.Answers [name] done (result.map (name :: ·)) := by
  cases result with
  | error fault => exact h
  | ok done' =>
      obtain ⟨hmore, htargets, hdone'⟩ := h
      refine ⟨List.subset_cons_of_subset name hmore, by simp, ?_⟩
      rintro other hother
      rcases List.mem_cons.mp hother with rfl | hother
      · exact ⟨_, fun target hlinks => hdone' target (htargets hlinks)⟩
      · exact hdone' other hother

/-- **A visit answers for its name.** -/
theorem visit_answers (depth : Nat) (chain done : List (List Char)) (name : List Char) :
    (chain ++ [name]).IsChain references.Links → chain.Nodup →
      references.length < depth + chain.length → references.Ends done →
        references.Answers [name] done (visit references depth chain done name) := by
  fun_induction visit references depth chain done name
  case case1 old =>
    exact fun linked once _ _ => ⟨_, rfl, loop_of_mem linked once old⟩
  case case2 old => exact fun _ _ _ hdone => answers_old hdone old
  case case3 =>
    -- the depth is not used up
    intro linked once hdepth _
    have hlength := length_le_of_linked linked once
    omega
  case case4 chain done name new _ depth ih =>
    intro linked once hdepth hdone
    have htargets : references.Answers (references.targets name) done
        ((references.targets name).foldlM
          (fun done target => visit references depth (chain ++ [name]) done target) done) := by
      refine answers_foldlM (fun target hlinks done => ?_) done hdone
      have hdepth' : references.length < depth + (chain ++ [name]).length := by
        rw [List.length_append, List.length_singleton]
        omega
      exact ih done target (isChain_concat linked hlinks) (nodup_concat once new) hdepth'
    exact answers_cons htargets

/-- **The search answers for all names.** -/
theorem check_answers (references : References) :
    references.Answers (references.map Prod.fst) [] ((references.map Prod.fst).foldlM
      (fun done name => visit references (references.length + 1) [] done name) []) := by
  refine answers_foldlM (fun name _ done => ?_) [] nofun
  exact visit_answers (references.length + 1) [] done name (List.isChain_singleton name)
    List.nodup_nil (by simp)

/-- **A search that ends has no cycle to find.** -/
theorem check_eq_ok (h : references.check = .ok ()) :
    ∀ name, ¬TransGen references.Links name name := by
  intro name hround
  obtain ⟨done, hdone, _⟩ := Except.bind_eq_ok.mp h
  have hanswers := check_answers references
  rw [hdone] at hanswers
  obtain ⟨_, hnames, hends⟩ := hanswers
  obtain ⟨target, hlinks, _⟩ := TransGen.head'_iff.mp hround
  exact not_transGen_of_acc (hends name (hnames (mem_names_of_links hlinks))) hround

/-- **A search that fails has found a loop.** -/
theorem check_eq_error {fault : Fault} (h : references.check = .error fault) :
    ∃ chain, fault = .cyclicReference chain ∧ Loop references.Links chain := by
  have hanswers := check_answers references
  rw [check] at h
  cases hsearch : (references.map Prod.fst).foldlM
      (fun done name => visit references (references.length + 1) [] done name) [] with
  | ok done =>
      rw [hsearch] at h
      cases h
  | error fault' =>
      rw [hsearch] at h hanswers
      obtain rfl := Except.error.inj h
      exact hanswers

/-! ## Other orders -/

/-- The same references with the targets of each name in another order. -/
def rearrange (order : List Char → List (List Char) → List (List Char)) (references : References) :
    References :=
  references.map fun e => (e.1, order e.1 e.2)

/-- Where a name leads to does not depend on the order of its targets. -/
theorem links_rearrange {order : List Char → List (List Char) → List (List Char)}
    (permutes : ∀ name names, (order name names).Perm names) (references : References) :
    (references.rearrange order).Links = references.Links := by
  funext name target
  refine propext ?_
  induction references with
  | nil => rfl
  | cons e references ih =>
      obtain ⟨name', names⟩ := e
      rw [Links, targets, Links, targets, rearrange] at ih
      rw [Links, targets, Links, targets, rearrange, List.map_cons, List.lookup_cons,
        List.lookup_cons]
      by_cases heq : name = name'
      · simpa only [heq, beq_self_eq_true, Option.getD_some] using (permutes name' names).mem_iff
      · simpa only [beq_eq_false_iff_ne.mpr heq] using ih

/-! ## The names that tokens refer to -/

theorem mem_ofTokens {tokens : List Token} :
    name ∈ ofTokens tokens ↔ Token.reference name ∈ tokens := by
  rw [ofTokens, List.mem_eraseDups, List.mem_map]
  constructor
  · rintro ⟨⟨kind, text⟩, ht, rfl⟩
    obtain ⟨hmem, hkind⟩ := List.mem_filter.mp ht
    obtain rfl : kind = .reference := by simpa using hkind
    exact hmem
  · exact fun h => ⟨_, List.mem_filter.mpr ⟨h, rfl⟩, rfl⟩

end References

/-! ## Variables with different names -/

theorem lookup_eq_some_iff_mem {β : Type} {l : List (List Char × β)} {a : List Char} {b : β}
    (distinct : (l.map Prod.fst).Nodup) : l.lookup a = some b ↔ (a, b) ∈ l := by
  induction l with
  | nil => simp
  | cons first l ih =>
      obtain ⟨a', b'⟩ := first
      obtain ⟨hnew, hrest⟩ := List.nodup_cons.mp distinct
      rw [List.lookup_cons, List.mem_cons, Prod.mk.injEq]
      by_cases heq : a = a'
      · subst heq
        have hnot : (a, b) ∉ l := fun hmem => hnew (List.mem_map.mpr ⟨_, hmem, rfl⟩)
        simp [hnot, eq_comm]
      · simp [beq_eq_false_iff_ne.mpr heq, heq, ih hrest]

namespace Variables

variable {vars : Variables} {name text : List Char}

theorem mem_names_put {binding : Binding} {other : List Char}
    (bindings : List (List Char × Binding)) :
    other ∈ (put name binding bindings).map Prod.fst ↔
      other = name ∨ other ∈ bindings.map Prod.fst := by
  induction bindings with
  | nil => simp [put]
  | cons first bindings ih =>
      obtain ⟨old, kept⟩ := first
      rw [put]
      split
      · rename_i heq
        subst heq
        simp
      · rw [List.map_cons, List.mem_cons, ih, List.map_cons, List.mem_cons]
        exact or_left_comm

/-- **Binding a name keeps the names different.** -/
theorem nodup_bind (distinct : vars.names.Nodup) (name : List Char) (binding : Binding) :
    (vars.bind name binding).names.Nodup := by
  obtain ⟨bindings⟩ := vars
  show ((put name binding bindings).map Prod.fst).Nodup
  have hdistinct : (bindings.map Prod.fst).Nodup := distinct
  clear distinct
  induction bindings with
  | nil => exact List.nodup_singleton name
  | cons first bindings ih =>
      obtain ⟨old, kept⟩ := first
      obtain ⟨hnew, hrest⟩ := List.nodup_cons.mp hdistinct
      rw [put]
      split
      · rename_i heq
        subst heq
        exact hdistinct
      · rename_i hne
        refine List.nodup_cons.mpr ⟨fun hmem => ?_, ih hrest⟩
        exact ((mem_names_put bindings).mp hmem).elim hne hnew

/-- Variables that are bound one after the other have different names. -/
theorem nodup_ofList (bindings : List (List Char × Binding)) : (ofList bindings).names.Nodup := by
  have hfold : ∀ vars : Variables, vars.names.Nodup →
      (bindings.foldl (fun v bound => v.bind bound.1 bound.2) vars).names.Nodup := by
    induction bindings with
    | nil => exact fun vars distinct => distinct
    | cons first bindings ih =>
        exact fun vars distinct => ih _ (nodup_bind distinct first.1 first.2)
  exact hfold {} List.nodup_nil

theorem expressions_sublist (vars : Variables) :
    (vars.expressions.map Prod.fst).Sublist vars.names := by
  obtain ⟨bindings⟩ := vars
  show ((List.filterMap _ bindings).map Prod.fst).Sublist (bindings.map Prod.fst)
  induction bindings with
  | nil => exact List.Sublist.refl []
  | cons first bindings ih =>
      obtain ⟨name, binding⟩ := first
      cases binding with
      | number x => exact ih.cons _
      | expression text => exact ih.cons_cons _

/-- **With different names** the expressions are those that names are bound to. -/
theorem lookup_expressions (distinct : vars.names.Nodup) :
    vars.expressions.lookup name = some text ↔ vars.find? name = some (.expression text) := by
  rw [lookup_eq_some_iff_mem (distinct.sublist vars.expressions_sublist), mem_expressions, find?,
    lookup_eq_some_iff_mem distinct]

end Variables

namespace Calculator

variable {c : Calculator} {vars : Variables} {name target : List Char}

/-! ## The references of expressions -/

/-- The references of some expressions by their names. -/
def referencesOf (c : Calculator) (expressions : List (List Char × List Char)) :
    Except Failure References :=
  expressions.mapM fun e => (c.tokenize e.2).map fun tokens => (e.1, References.ofTokens tokens)

theorem references_eq (c : Calculator) (vars : Variables) :
    c.references vars = c.referencesOf vars.expressions := rfl

theorem referencesOf_cons (e : List Char × List Char) (expressions : List (List Char × List Char)) :
    c.referencesOf (e :: expressions) = (c.tokenize e.2).bind fun tokens =>
      (c.referencesOf expressions).map ((e.1, References.ofTokens tokens) :: ·) := by
  rw [referencesOf, List.mapM_cons]
  exact Except.bind_map _ _ _

theorem referencesOf_cons_inv {e : List Char × List Char} {expressions : List (List Char × List Char)}
    {references : References} (h : c.referencesOf (e :: expressions) = .ok references) :
    ∃ tokens rest, c.tokenize e.2 = .ok tokens ∧ c.referencesOf expressions = .ok rest ∧
      references = (e.1, References.ofTokens tokens) :: rest := by
  rw [referencesOf_cons] at h
  obtain ⟨tokens, htokens, hmap⟩ := Except.bind_eq_ok.mp h
  obtain ⟨rest, hrest, rfl⟩ := Except.map_eq_ok.mp hmap
  exact ⟨tokens, rest, htokens, hrest, rfl⟩

/-- **The links between names are the references of their expressions.** -/
theorem links_of_referencesOf {expressions : List (List Char × List Char)} :
    ∀ {references : References}, c.referencesOf expressions = .ok references →
      (references.Links name target ↔
        ∃ text, expressions.lookup name = some text ∧ c.Occurs text target) := by
  induction expressions with
  | nil =>
      intro references h
      obtain rfl := Except.ok.inj h
      simp [References.Links, References.targets]
  | cons e expressions ih =>
      intro references h
      obtain ⟨tokens, rest, htokens, hrest, rfl⟩ := referencesOf_cons_inv h
      have hlinks := ih hrest
      obtain ⟨name', text⟩ := e
      rw [References.Links, References.targets] at hlinks ⊢
      rw [List.lookup_cons, List.lookup_cons]
      -- of expressions of one name the first one counts
      by_cases heq : name = name'
      · simp only [heq, beq_self_eq_true, Option.getD_some, Option.some.injEq, exists_eq_left',
          References.mem_ofTokens]
        exact ⟨fun hmem => ⟨tokens, htokens, hmem⟩, fun ⟨tokens', htokens', hmem⟩ =>
          Except.ok.inj (htokens'.symm.trans htokens) ▸ hmem⟩
      · simpa only [beq_eq_false_iff_ne.mpr heq] using hlinks

/-- Where the references cannot be read, the first expression that is not read is at fault. -/
theorem referencesOf_eq_error {failure : Failure} {expressions : List (List Char × List Char)}
    (h : c.referencesOf expressions = .error failure) : ∃ before name text after,
      expressions = before ++ (name, text) :: after ∧
        (∀ e ∈ before, ∃ tokens, c.tokenize e.2 = .ok tokens) ∧
          c.tokenize text = .error failure := by
  induction expressions with
  | nil => cases h
  | cons e expressions ih =>
      rw [referencesOf_cons] at h
      cases htokens : c.tokenize e.2 with
      | error failure' =>
          rw [htokens] at h
          obtain rfl := Except.error.inj h
          exact ⟨[], e.1, e.2, expressions, rfl, nofun, htokens⟩
      | ok tokens =>
          rw [htokens] at h
          have hrest : c.referencesOf expressions = .error failure := by
            cases hrest : c.referencesOf expressions with
            | ok references => simp [hrest, Except.bind, Except.map] at h
            | error failure' => simpa [hrest, Except.bind, Except.map] using h
          obtain ⟨before, name, text, after, rfl, hbefore, hfail⟩ := ih hrest
          refine ⟨e :: before, name, text, after, rfl, ?_, hfail⟩
          exact List.forall_mem_cons.mpr ⟨⟨tokens, htokens⟩, hbefore⟩

/-- Where the references can be read, all expressions are. -/
theorem exists_tokens_of_referencesOf {expressions : List (List Char × List Char)} :
    ∀ {references : References}, c.referencesOf expressions = .ok references →
      ∀ e ∈ expressions, ∃ tokens, c.tokenize e.2 = .ok tokens := by
  induction expressions with
  | nil => exact fun _ => nofun
  | cons e expressions ih =>
      intro references h
      obtain ⟨tokens, rest, htokens, hrest, rfl⟩ := referencesOf_cons_inv h
      exact List.forall_mem_cons.mpr ⟨⟨tokens, htokens⟩, ih hrest⟩

/-- **The search looks at the references of the variables.** -/
theorem links_eq_refers (distinct : vars.names.Nodup) {references : References}
    (h : c.references vars = .ok references) : references.Links = c.Refers vars := by
  funext name target
  rw [references_eq] at h
  refine propext ((links_of_referencesOf h).trans ?_)
  simp only [Variables.lookup_expressions distinct, Refers]

/-! ## The search and the evaluation -/

/-- **What lies on a loop has no value.** -/
theorem evaluate_ne_ok_of_loop {chain : List (List Char)} (h : Loop (c.Refers vars) chain)
    (hname : name ∈ chain) (x : Scalar) : c.evaluate name vars ≠ .ok x := by
  intro hvalue
  have hround := h.transGen name hname
  obtain ⟨other, _, hrefers⟩ := TransGen.tail'_iff.mp hround
  have hgrounded := grounded_of_compute (Drawing.yields_of_outcome hvalue) (occurs_of_refers hrefers)
  exact hgrounded.not_cyclic hround

/-- Where no variable leads back to itself, no cyclic reference is reported. -/
theorem evaluate_ne_cyclic (h : ∀ name, ¬TransGen (c.Refers vars) name name) (text : List Char)
    (chain : List (List Char)) :
    c.evaluate text vars ≠ .error (.fault (.cyclicReference chain)) := by
  intro hfail
  have hlasso : Lasso (c.Refers vars) chain := (c.compute_fails vars text _ _ hfail).1
  obtain ⟨name, hround⟩ := hlasso.exists_transGen
  exact h name hround

/-- **What a search finds out about some variables**: it passes or reports a cyclic reference, and
it reports one exactly if some variable leads back to itself. What it reports is a loop of
references, and no name on it has a value. Where it passes, no evaluation reports a cyclic
reference. -/
structure Decides (c : Calculator) (vars : Variables) (result : Except Failure Unit) : Prop where
  answers : result = .ok () ∨ ∃ chain, result = .error (.fault (.cyclicReference chain))
  cyclic_iff : (∃ chain, result = .error (.fault (.cyclicReference chain))) ↔
    ∃ name, TransGen (c.Refers vars) name name
  loop : ∀ chain, result = .error (.fault (.cyclicReference chain)) →
    Loop (c.Refers vars) chain ∧ ∀ name ∈ chain, ∀ x, c.evaluate name vars ≠ .ok x
  passes : result = .ok () → ∀ text chain,
    c.evaluate text vars ≠ .error (.fault (.cyclicReference chain))

/-- **A search through the references of some variables** finds out about them. -/
theorem decides_of_links {references : References} (h : references.Links = c.Refers vars) :
    c.Decides vars (references.check.mapError .fault) := by
  cases hsearch : references.check with
  | ok result =>
      have hacyclic := References.check_eq_ok hsearch
      rw [h] at hacyclic
      exact {
        answers := .inl rfl
        cyclic_iff := ⟨nofun, fun ⟨name, hround⟩ => absurd hround (hacyclic name)⟩
        loop := nofun
        passes := fun _ => evaluate_ne_cyclic hacyclic }
  | error fault =>
      obtain ⟨chain, rfl, hloop⟩ := References.check_eq_error hsearch
      rw [h] at hloop
      refine {
        answers := .inr ⟨chain, rfl⟩
        cyclic_iff := ⟨fun _ => hloop.exists_transGen, fun _ => ⟨chain, rfl⟩⟩
        loop := ?_
        passes := nofun }
      rintro _ ⟨⟩
      exact ⟨hloop, fun name hname => evaluate_ne_ok_of_loop hloop hname⟩

/-- All expressions have tokens. -/
def Readable (c : Calculator) (vars : Variables) : Prop :=
  ∀ name text, vars.find? name = some (.expression text) → ∃ tokens, c.tokenize text = .ok tokens

theorem readable_of_references {references : References}
    (h : c.references vars = .ok references) : c.Readable vars :=
  fun _ _ bound =>
    exists_tokens_of_referencesOf h _ (Variables.mem_expressions_of_find? bound)

theorem references_eq_ok_of_readable (distinct : vars.names.Nodup) (h : c.Readable vars) :
    ∃ references, c.references vars = .ok references := by
  cases hreferences : c.references vars with
  | ok references => exact ⟨references, rfl⟩
  | error failure =>
      obtain ⟨before, name, text, after, heq, _, hfail⟩ := referencesOf_eq_error hreferences
      have hmem : (name, text) ∈ vars.expressions := by
        rw [heq]
        exact List.mem_append_right _ List.mem_cons_self
      have hbound : vars.find? name = some (.expression text) :=
        (lookup_eq_some_iff_mem distinct).mpr (Variables.mem_expressions.mp hmem)
      obtain ⟨tokens, htokens⟩ := h name text hbound
      rw [hfail] at htokens
      cases htokens

/-- **The search finds cycles, and agrees with the evaluation**, if all expressions have tokens, and
whatever the order in which the targets of each name are visited. Where some expression has no
tokens, the search fails as the first such expression is read, whether there is a cycle or not. -/
theorem checkVariables_finds_cycles (c : Calculator) (vars : Variables)
    (distinct : vars.names.Nodup) :
    (c.Readable vars → c.Decides vars (c.checkVariables vars) ∧
      ∃ references, c.references vars = .ok references ∧
        ∀ order, (∀ name names, (order name names).Perm names) →
          c.Decides vars ((references.rearrange order).check.mapError .fault)) ∧
    (¬c.Readable vars → ∃ before name text after failure,
      vars.expressions = before ++ (name, text) :: after ∧
        (∀ e ∈ before, ∃ tokens, c.tokenize e.2 = .ok tokens) ∧
          c.tokenize text = .error failure ∧ failure.OfReading c.lexicon.symbols ∧
            c.checkVariables vars = .error failure) := by
  refine ⟨fun readable => ?_, fun unreadable => ?_⟩
  · obtain ⟨references, h⟩ := references_eq_ok_of_readable distinct readable
    have hlinks := links_eq_refers distinct h
    have hcheck : c.checkVariables vars = references.check.mapError .fault := by
      rw [checkVariables, h]
      rfl
    refine ⟨hcheck ▸ decides_of_links hlinks, references, h, fun order permutes => ?_⟩
    exact decides_of_links ((References.links_rearrange permutes references).trans hlinks)
  · cases hreferences : c.references vars with
    | ok references => exact absurd (readable_of_references hreferences) unreadable
    | error failure =>
        obtain ⟨before, name, text, after, heq, hbefore, hfail⟩ :=
          referencesOf_eq_error hreferences
        refine ⟨before, name, text, after, failure, heq, hbefore, hfail, ?_, ?_⟩
        · exact Lexicon.tokenize_fails c.symbols_ne_nil text failure hfail
        · rw [checkVariables, hreferences]
          rfl

/-- Where `a` is `b`, `b` is `x+1` and `x` is `2b`, the search reports the loop of `b` and `x` that
`a` leads to, and `b` has no value. -/
theorem checkVariables_finds_cycles_behind :
    ∃ vars : Variables, vars = .ofList [(['a'], .expression ['b']),
        (['b'], .expression "x+1".toList), (['x'], .expression "2b".toList)] ∧
      vars.names.Nodup ∧ ({} : Calculator).Readable vars ∧
        Loop (({} : Calculator).Refers vars) [['b'], ['x'], ['b']] ∧
          ∀ x, ({} : Calculator).evaluate ['b'] vars ≠ .ok x := by
  have distinct := Variables.nodup_ofList [(['a'], .expression ['b']),
    (['b'], .expression "x+1".toList), (['x'], .expression "2b".toList)]
  have hreferences : ({} : Calculator).references (.ofList [(['a'], .expression ['b']),
      (['b'], .expression "x+1".toList), (['x'], .expression "2b".toList)]) =
        .ok [(['a'], [['b']]), (['b'], [['x']]), (['x'], [['b']])] := by
    decide +kernel
  have readable := readable_of_references hreferences
  have hloop := ((checkVariables_finds_cycles {} _ distinct).1 readable).1.loop
    [['b'], ['x'], ['b']] (by decide +kernel)
  exact ⟨_, rfl, distinct, readable, hloop.1, hloop.2 ['b'] (by decide)⟩

end Calculator

end DecimalCalc
