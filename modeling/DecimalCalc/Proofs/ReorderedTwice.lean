import DecimalCalc.Proofs.OperatorStack
import Mathlib.Data.List.SplitBy

/-!
# Reordering what has been reordered

Tokens in reverse Polish order hold no parentheses, so that they can be reordered again; but they are
read as if each operator stood before its last operand. They come out as they went in exactly if
(`KeepsOrder`) nothing that is written at once comes after something that waits, and the waiting
tokens are **runs that read the same backwards**, each written out as a whole before the next one
starts. A run is what comes to lie on the stack without anything being written out in between, and
so is written backwards.

So the orders of `3+4*2` and `2^3^2` are kept, but not that of `(2+3)*4`, which is `2 3 + 4 *` and
comes out as `2 3 4 * +` (`reorder_reordered`).
-/

set_option autoImplicit false

namespace DecimalCalc

namespace ReversePolish

variable {registry : Registry}

/-! ## What reverse Polish order holds -/

theorem not_pending {t : Token} (h : writtenAtOnce registry t = true) :
    ¬Pending registry t := by
  rintro (hcall | ⟨entry, hkind, hlisted, hafter⟩)
  · simp [writtenAtOnce, hcall] at h
  · simp [writtenAtOnce, hkind, hlisted, hafter] at h

/-- A token that is written out is written at once, or has waited. -/
def Ordered (registry : Registry) (t : Token) : Prop :=
  writtenAtOnce registry t = true ∨ Pending registry t

theorem ordered_of_mayWait {t : Token} (h : MayWait registry t) (hopen : t.kind ≠ .leftParen) :
    Ordered registry t := .inr (h.resolve_left hopen)

theorem Next.ordered {m m' : Moment} (h : Next registry m m')
    (hm : WellStacked registry m.read m.stack) (hending : m.ending = true →
      ∀ top ∈ m.stack.head?, top.kind = .function)
    (hwritten : ∀ t ∈ m.written, Ordered registry t) : ∀ t ∈ m'.written, Ordered registry t := by
  -- what is taken from the stack opens no parenthesis
  have hpop : ∀ {written stack : List Token} {top : Token}, (∀ t ∈ written, Ordered registry t) →
      (∀ t ∈ top :: stack, MayWait registry t) → top.kind ≠ .leftParen →
        ∀ t ∈ written ++ [top], Ordered registry t := by
    intro written stack top hall hstack htop t ht
    rcases List.mem_append.mp ht with ht | ht
    · exact hall t ht
    · rw [List.mem_singleton.mp ht]
      exact ordered_of_mayWait (hstack top (by simp)) htop
  cases h with
  | write h =>
      intro t ht
      rcases List.mem_append.mp ht with ht | ht
      · exact hwritten t ht
      · rw [List.mem_singleton.mp ht]
        exact .inl h
  | wait _ => exact hwritten
  | yield _ h => exact hpop hwritten hm.kinds (not_yieldsTo_leftParen h)
  | hold _ _ => exact hwritten
  | uncover _ h => exact hpop hwritten hm.kinds h
  | separate _ _ => exact hwritten
  | close _ _ _ => exact hwritten
  | closeCall _ _ _ => exact hwritten
  | endCall =>
      have hcall := hending rfl _ rfl
      exact hpop hwritten hm.kinds (by simp [hcall])
  | flush h => exact hpop hwritten hm.kinds h

/-- **What reordering writes**: numbers, operators and functions. -/
theorem ordered_of_reorder {tokens out : List Token} (h : reorder registry tokens = .ok out) :
    ∀ t ∈ out, Ordered registry t := by
  have hall : ∀ m, Reaches registry tokens m →
      (m.ending = true → ∀ top ∈ m.stack.head?, top.kind = .function) ∧
        ∀ t ∈ m.written, Ordered registry t := by
    intro m hm
    induction hm with
    | refl => exact ⟨by simp, by simp⟩
    | tail hrun hnext ih =>
        exact ⟨hnext.call, hnext.ordered (reaches_wellStacked hrun) ih.1 ih.2⟩
  exact (hall _ (reorder_eq_ok_iff_reaches.mp h)).2

/-! ## Reading it again -/

/-- A token that holds no parenthesis and no separator is always read, and none is lost. -/
theorem exists_step {t : Token} (ht : Ordered registry t) (stack : List Token) :
    ∃ written stack', step registry stack t = .ok (written, stack') ∧
      (written ++ stack').Perm (t :: stack) ∧ (Pending registry t → t ∈ stack') ∧
      (writtenAtOnce registry t = true → written = [t]) := by
  rcases ht with ht | ht
  · exact ⟨[t], stack, step_of_writtenAtOnce ht stack, .refl _, fun h => absurd h (not_pending ht),
      fun _ => rfl⟩
  · have hnot : ¬writtenAtOnce registry t = true := fun h => not_pending h ht
    rcases ht with hcall | ⟨entry, hbetween⟩
    · exact ⟨[], t :: stack, step_of_waits (.inl hcall) stack, .refl _, by simp,
        fun h => absurd h hnot⟩
    · refine ⟨_, _, step_of_between hbetween stack, ?_, by simp, fun h => absurd h hnot⟩
      have hsplit := List.takeWhile_append_dropWhile (p := yieldsTo registry entry) (l := stack)
      conv_rhs => rw [← hsplit]
      exact List.perm_middle

/-- So is a row of such tokens. -/
theorem exists_advance (tokens : List Token) (h : ∀ t ∈ tokens, Ordered registry t) :
    ∀ stack : List Token, ∃ written stack',
      advance registry stack tokens = .ok (written, stack') ∧
        (written ++ stack').Perm (stack ++ tokens) ∧
        (∀ t ∈ tokens.getLast?, Pending registry t → t ∈ stack') := by
  induction tokens with
  | nil => exact fun stack => ⟨[], stack, rfl, by simp, by simp⟩
  | cons t tokens ih =>
      intro stack
      obtain ⟨first, middle, hstep, hfirst, hwaits, _⟩ := exists_step (h t (by simp)) stack
      obtain ⟨more, last, hrest, hmore, hlast⟩ := ih (fun u hu => h u (by simp [hu])) middle
      refine ⟨first ++ more, last, advance_cons_of_ok hstep hrest, ?_, ?_⟩
      · calc first ++ more ++ last
            = first ++ (more ++ last) := List.append_assoc _ _ _
          _ |>.Perm (first ++ (middle ++ tokens)) := hmore.append_left first
          _ = first ++ middle ++ tokens := (List.append_assoc _ _ _).symm
          _ |>.Perm (t :: stack ++ tokens) := hfirst.append_right tokens
          _ |>.Perm (stack ++ t :: tokens) := List.perm_middle.symm
      · cases tokens with
        | nil =>
            obtain ⟨rfl, rfl⟩ := Prod.mk.inj (Except.ok.inj hrest)
            simpa using hwaits
        | cons u tokens => simpa using hlast

/-- Tokens in reverse Polish order can be reordered, and are all written out again. -/
theorem exists_reorder {tokens : List Token} (h : ∀ t ∈ tokens, Ordered registry t) :
    ∃ out, reorder registry tokens = .ok out ∧ out.Perm tokens := by
  obtain ⟨written, stack, hread, hperm, _⟩ := exists_advance tokens h []
  rw [List.nil_append] at hperm
  have hunopened : Unopened stack := by
    intro t ht hopen
    have hmem : t ∈ tokens := hperm.mem_iff.mp (List.mem_append_right written ht)
    rcases h t hmem with honce | (hkind | ⟨_, hkind, _⟩)
    · simp [writtenAtOnce, hopen] at honce
    all_goals rw [hopen] at hkind; cases hkind
  exact ⟨written ++ stack, by rw [reorder_of_advance hread, finish_of_unopened hunopened]; rfl,
    hperm⟩

/-! ## Runs -/

/-- Whether a token is laid on another one when it comes next: it is no operator that the other one
yields to. -/
def waitsOn (registry : Registry) (lower upper : Token) : Bool :=
  match upper.kind with
  | .operator => !(registry.find? upper.text).any fun later => yieldsTo registry later lower
  | _ => true

/-- An operator that comes next writes out a token below it. -/
theorem waitsOn_eq_false {lower upper : Token} (hupper : Pending registry upper) :
    waitsOn registry lower upper = false ↔
      ∃ entry, Between registry upper entry ∧ yieldsTo registry entry lower = true := by
  rcases hupper with hcall | ⟨entry, hbetween⟩
  · simp [waitsOn, hcall, Between]
  · obtain ⟨hkind, hlisted, hafter⟩ := hbetween
    simp [waitsOn, hkind, hlisted, Between, hafter]

theorem step_of_waitsOn {t : Token} {stack : List Token} (ht : Pending registry t)
    (hstack : ∀ top ∈ stack.head?, waitsOn registry top t = true) :
    step registry stack t = .ok ([], t :: stack) := by
  rcases ht with hcall | ⟨entry, hbetween⟩
  · exact step_of_waits (.inl hcall) stack
  · refine step_of_hold hbetween fun top htop => ?_
    have hon := hstack top htop
    simpa [waitsOn, hbetween.1, hbetween.2.1] using hon

/-- **A run is laid on the stack** without anything being written. -/
theorem advance_run : ∀ (run stack : List Token), (∀ t ∈ run, Pending registry t) →
    run.IsChain (fun lower upper => waitsOn registry lower upper = true) →
    (∀ top ∈ stack.head?, ∀ t ∈ run.head?, waitsOn registry top t = true) →
      advance registry stack run = .ok ([], run.reverse ++ stack)
  | [], stack, _, _, _ => rfl
  | t :: run, stack, hwaits, hchain, hstack => by
      have hstep := step_of_waitsOn (hwaits t (by simp)) fun top htop => hstack top htop t rfl
      have hrest := advance_run run (t :: stack) (fun u hu => hwaits u (by simp [hu])) hchain.tail
        (by
          intro top htop u hu
          obtain rfl : t = top := by simpa using htop
          exact (List.isChain_cons.mp hchain).1 u hu)
      have hall := advance_cons_of_ok hstep hrest
      simpa using hall

/-- What waits on a token yields to all that the token yields to: it is a function, or binds at least
as strongly. -/
theorem yieldsTo_of_waitsOn {lower upper : Token} {later : Entry} (hlower : Pending registry lower)
    (hupper : Pending registry upper) (hon : waitsOn registry lower upper = true)
    (h : yieldsTo registry later lower = true) : yieldsTo registry later upper = true := by
  rcases hupper with hcall | ⟨above, hkind, hlisted, _⟩
  · simp [yieldsTo, hcall]
  · have hhold : yieldsTo registry above lower = false := by
      simpa [waitsOn, hkind, hlisted] using hon
    rcases hlower with hcall | ⟨below, hkind', hlisted', _⟩
    · simp [yieldsTo, hcall] at hhold
    · have hranks : ¬outranks below above = true := by
        simpa [yieldsTo, hkind', hlisted'] using hhold
      have houtranks : outranks below later = true := by
        simpa [yieldsTo, hkind', hlisted'] using h
      -- precedence does not fall from the lower token to the upper one
      have hlater : outranks above later = true := by
        rw [outranks_iff] at hranks houtranks ⊢
        have hle : below.precedence ≤ above.precedence := by
          by_contra hlt
          exact hranks (.inl (by omega))
        rcases houtranks with hlt | ⟨heq, hleft⟩
        · exact .inl (by omega)
        · by_cases hlt : later.precedence < above.precedence
          · exact .inl hlt
          · exact .inr ⟨by omega, hleft⟩
      simp [yieldsTo, hkind, hlisted, hlater]

/-- **A run yields as a whole** to what its first token yields to. -/
theorem yieldsTo_of_run {later : Entry} : ∀ {run : List Token},
    run.IsChain (fun lower upper => waitsOn registry lower upper = true) →
    (∀ t ∈ run, Pending registry t) → (∀ t ∈ run.head?, yieldsTo registry later t = true) →
      ∀ t ∈ run, yieldsTo registry later t = true
  | [], _, _, _ => by simp
  | [t], _, _, hhead => by simpa using hhead
  | t :: u :: run, hchain, hwaits, hhead => by
      have ht : yieldsTo registry later t = true := hhead t rfl
      obtain ⟨hon, htail⟩ := List.isChain_cons_cons.mp hchain
      have hu : yieldsTo registry later u = true :=
        yieldsTo_of_waitsOn (hwaits t (by simp)) (hwaits u (by simp)) hon ht
      have hrest := yieldsTo_of_run htail (fun v hv => hwaits v (List.mem_cons_of_mem t hv))
        (by simpa using hu)
      intro v hv
      rcases List.mem_cons.mp hv with rfl | hv
      · exact ht
      · exact hrest v hv

/-! ## Runs in a row -/

/-- What comes after a run that yields to it is reordered for itself. -/
theorem reorder_run {run rest : List Token} {t : Token} {entry : Entry}
    (hchain : run.IsChain fun lower upper => waitsOn registry lower upper = true)
    (hwaits : ∀ t ∈ run, Pending registry t) (hbetween : Between registry t entry)
    (hyield : ∀ u ∈ run, yieldsTo registry entry u = true) :
    reorder registry (run ++ t :: rest) =
      (reorder registry (t :: rest)).map (run.reverse ++ ·) := by
  have hread := advance_run run [] hwaits hchain (by simp)
  rw [List.append_nil] at hread
  have hall : ∀ u ∈ run.reverse, yieldsTo registry entry u = true := by
    simpa using hyield
  have hstep : step registry run.reverse t = .ok (run.reverse, [t]) := by
    rw [step_of_between hbetween, List.takeWhile_eq_self_iff.mpr hall,
      List.dropWhile_eq_nil_iff.mpr hall]
  have hempty : step registry [] t = .ok ([], [t]) := step_of_hold hbetween (by simp)
  rw [reorder, reorder, reorderFrom_append hread, reorderFrom_cons, reorderFrom_cons, hstep, hempty]
  show ((reorderFrom registry [t] rest).map _).map _ = ((reorderFrom registry [t] rest).map _).map _
  simp only [Except.map_map, List.nil_append]

/-- What is written first after a run, if its last token is. -/
theorem head_of_reorder {run rest out : List Token} {t last : Token} {entry : Entry}
    (hchain : run.IsChain fun lower upper => waitsOn registry lower upper = true)
    (hwaits : ∀ t ∈ run, Pending registry t) (hbetween : Between registry t entry)
    (hlast : run.getLast? = some last) (hyield : yieldsTo registry entry last = true)
    (h : reorder registry (run ++ t :: rest) = .ok out) : out.head? = some last := by
  obtain ⟨before, rfl⟩ : ∃ before, run = before ++ [last] := List.getLast?_eq_some_iff.mp hlast
  have hread := advance_run _ [] hwaits hchain (by simp)
  rw [List.append_nil, List.reverse_append, List.reverse_singleton, List.singleton_append] at hread
  rw [reorder, reorderFrom_append hread, reorderFrom_cons, step_of_between hbetween,
    List.takeWhile_cons_of_pos hyield] at h
  obtain ⟨q, hq, rfl⟩ := Except.map_eq_ok.mp h
  obtain ⟨_, hresult, hmap⟩ := Except.bind_eq_ok.mp hq
  obtain rfl := Except.ok.inj hresult
  obtain ⟨_, _, rfl⟩ := Except.map_eq_ok.mp hmap
  rfl

/-- **A run and what comes after it keep their order** if the run reads the same backwards, and what
comes after it keeps its own. -/
theorem reorder_run_eq_iff {run rest : List Token} {t : Token}
    (hchain : run.IsChain fun lower upper => waitsOn registry lower upper = true)
    (hwaits : ∀ u ∈ run ++ t :: rest, Pending registry u) (hne : run ≠ [])
    (hend : waitsOn registry (run.getLast hne) t = false) :
    reorder registry (run ++ t :: rest) = .ok (run ++ t :: rest) ↔
      run.reverse = run ∧ reorder registry (t :: rest) = .ok (t :: rest) := by
  have hrun : ∀ u ∈ run, Pending registry u := fun u hu => hwaits u (List.mem_append_left _ hu)
  have hlast : run.getLast? = some (run.getLast hne) := List.getLast?_eq_getLast_of_ne_nil hne
  obtain ⟨entry, hbetween, hyield⟩ := (waitsOn_eq_false (hwaits t (by simp))).mp hend
  -- if the run starts as it ends, it is written out as a whole
  have hwhole : run.head? = some (run.getLast hne) → ∀ u ∈ run, yieldsTo registry entry u = true :=
    fun hhead => yieldsTo_of_run hchain hrun (by simpa [hhead] using hyield)
  constructor
  · intro h
    have hhead := head_of_reorder hchain hrun hbetween hlast hyield h
    rw [List.head?_append_of_ne_nil _ hne] at hhead
    rw [reorder_run hchain hrun hbetween (hwhole hhead)] at h
    obtain ⟨q, hq, heq⟩ := Except.map_eq_ok.mp h
    obtain ⟨hreverse, rfl⟩ := List.append_inj heq (List.length_reverse ..)
    exact ⟨hreverse, hq⟩
  · rintro ⟨hreverse, hrest⟩
    have hhead : run.head? = some (run.getLast hne) := by
      rw [← hlast, ← List.head?_reverse, hreverse]
    rw [reorder_run hchain hrun hbetween (hwhole hhead), hrest, hreverse]
    rfl

/-- **Waiting tokens keep their order** if each of their runs reads the same backwards. -/
theorem reorder_runs_eq_iff : ∀ {runs : List (List Token)}, [] ∉ runs →
    (∀ run ∈ runs, run.IsChain fun lower upper => waitsOn registry lower upper = true) →
    runs.IsChain (fun run next => ∃ hrun hnext,
      waitsOn registry (run.getLast hrun) (next.head hnext) = false) →
    (∀ t ∈ runs.flatten, Pending registry t) →
      (reorder registry runs.flatten = .ok runs.flatten ↔ ∀ run ∈ runs, run.reverse = run)
  | [], _, _, _, _ => by
      have hnil : reorder registry [] = .ok [] := rfl
      simpa using hnil
  | [run], _, hchains, _, hwaits => by
      simp only [List.flatten_cons, List.flatten_nil, List.append_nil, List.mem_singleton,
        forall_eq] at hwaits ⊢
      have hread := advance_run run [] hwaits (hchains run (by simp)) (by simp)
      rw [List.append_nil] at hread
      have hunopened : Unopened run.reverse := by
        intro t ht hopen
        rcases hwaits t (List.mem_reverse.mp ht) with hkind | ⟨_, hkind, _⟩ <;>
          rw [hopen] at hkind <;> cases hkind
      rw [reorder_of_advance hread, finish_of_unopened hunopened]
      simp [Except.map]
  | run :: next :: runs, hnil, hchains, hends, hwaits => by
      obtain ⟨⟨hrun, hnext, hend⟩, htail⟩ := List.isChain_cons_cons.mp hends
      have hrest := reorder_runs_eq_iff (fun h => hnil (List.mem_cons_of_mem run h))
        (fun r hr => hchains r (List.mem_cons_of_mem run hr)) htail
        (fun t ht => hwaits t (by
          rw [List.flatten_cons]
          exact List.mem_append_right run ht))
      obtain ⟨t, more, hmore⟩ : ∃ t more, next = t :: more := List.exists_cons_of_ne_nil hnext
      subst hmore
      have hflatten : (run :: (t :: more) :: runs).flatten = run ++ t :: (more ++ runs.flatten) := by
        simp
      rw [hflatten] at hwaits ⊢
      -- the first run is written out backwards, before any token of the next one
      rw [reorder_run_eq_iff (hchains run (by simp)) hwaits hrun hend]
      simp only [List.flatten_cons, List.cons_append] at hrest
      rw [hrest]
      exact (List.forall_mem_cons (p := fun r : List Token => r.reverse = r)).symm

/-! ## What is written at once comes first -/

theorem reorder_front {front : List Token} (h : ∀ t ∈ front, writtenAtOnce registry t = true)
    (rest : List Token) :
    reorder registry (front ++ rest) = (reorder registry rest).map (front ++ ·) := by
  have hread : ∀ front : List Token, (∀ t ∈ front, writtenAtOnce registry t = true) →
      advance registry [] front = .ok (front, []) := by
    intro front
    induction front with
    | nil => exact fun _ => rfl
    | cons t front ih =>
        intro hfront
        exact advance_cons_of_ok (step_of_writtenAtOnce (hfront t (by simp)) [])
          (ih fun u hu => hfront u (List.mem_cons_of_mem t hu))
  rw [reorder, reorderFrom_append (hread front h)]
  rfl

/-- **Nothing overtakes what waits**: in a row that keeps its order, no token that is written at once
comes after one that waits. -/
theorem reorder_overtaken {waiting rest : List Token} {t : Token} (hne : waiting ≠ [])
    (hwaiting : ∀ u ∈ waiting, Pending registry u) (ht : writtenAtOnce registry t = true) :
    reorder registry (waiting ++ t :: rest) ≠ .ok (waiting ++ t :: rest) := by
  intro h
  obtain ⟨written, stack, hread, hperm, hlast⟩ :=
    exists_advance waiting (fun u hu => .inr (hwaiting u hu)) []
  have hstack : stack ≠ [] := by
    intro hnil
    have hmem := hlast (waiting.getLast hne) (by simp [List.getLast?_eq_getLast_of_ne_nil hne])
      (hwaiting _ (List.getLast_mem hne))
    rw [hnil] at hmem
    cases hmem
  rw [reorder, reorderFrom_append hread, reorderFrom_cons, step_of_writtenAtOnce ht] at h
  obtain ⟨q, hq, heq⟩ := Except.map_eq_ok.mp h
  obtain ⟨_, hresult, hmap⟩ := Except.bind_eq_ok.mp hq
  obtain rfl := Except.ok.inj hresult
  obtain ⟨more, _, rfl⟩ := Except.map_eq_ok.mp hmap
  -- the token comes out where one of the waiting tokens stood
  have hlength : written.length < waiting.length := by
    have hlength := hperm.length_eq
    have hpos := List.length_pos_iff.mpr hstack
    simp only [List.length_append, List.nil_append] at hlength
    omega
  have hget := congrArg (fun tokens => tokens[written.length]?) heq
  simp only [List.singleton_append, List.getElem?_append_right le_rfl, Nat.sub_self,
    List.getElem?_cons_zero, List.getElem?_append_left hlength] at hget
  exact (not_pending ht) (hwaiting t (List.mem_of_getElem? hget.symm))

/-! ## Which orders are kept -/

/-- **A row that keeps its order**: what is written at once comes first, and the rest waits, in runs
that read the same backwards. -/
def KeepsOrder (registry : Registry) (tokens : List Token) : Prop :=
  ∃ front waiting, tokens = front ++ waiting ∧ (∀ t ∈ front, writtenAtOnce registry t = true) ∧
    (∀ t ∈ waiting, Pending registry t) ∧
    ∀ run ∈ waiting.splitBy (waitsOn registry), run.reverse = run

theorem reorder_waiting_eq_iff {waiting : List Token} (h : ∀ t ∈ waiting, Pending registry t) :
    reorder registry waiting = .ok waiting ↔
      ∀ run ∈ waiting.splitBy (waitsOn registry), run.reverse = run := by
  have hruns := reorder_runs_eq_iff (List.nil_notMem_splitBy (waitsOn registry) waiting)
    (fun run hrun => List.isChain_of_mem_splitBy hrun)
    (List.isChain_getLast_head_splitBy (waitsOn registry) waiting)
    (by rwa [List.flatten_splitBy])
  rwa [List.flatten_splitBy] at hruns

theorem reorder_front_eq_iff {front waiting : List Token}
    (h : ∀ t ∈ front, writtenAtOnce registry t = true) :
    reorder registry (front ++ waiting) = .ok (front ++ waiting) ↔
      reorder registry waiting = .ok waiting := by
  rw [reorder_front h, Except.map_eq_ok]
  simp

/-- A row is cut where the first token waits, and again where the next one does not. -/
theorem exists_cut : ∀ {tokens : List Token}, (∀ t ∈ tokens, Ordered registry t) →
    ∃ front waiting rest, tokens = front ++ (waiting ++ rest) ∧
      (∀ t ∈ front, writtenAtOnce registry t = true) ∧ (∀ t ∈ waiting, Pending registry t) ∧
      (∀ t ∈ rest.head?, writtenAtOnce registry t = true) ∧ (rest ≠ [] → waiting ≠ [])
  | [], _ => ⟨[], [], [], by simp⟩
  | t :: tokens, h => by
      obtain ⟨front, waiting, rest, rfl, hfront, hwaiting, hrest, hne⟩ :=
        exists_cut fun u hu => h u (List.mem_cons_of_mem t hu)
      rcases h t (by simp) with ht | ht
      · exact ⟨t :: front, waiting, rest, by simp, by simpa using ⟨ht, hfront⟩, hwaiting, hrest, hne⟩
      · cases front with
        | nil =>
            exact ⟨[], t :: waiting, rest, by simp, by simp, by simpa using ⟨ht, hwaiting⟩, hrest,
              by simp⟩
        | cons u front =>
            exact ⟨[], [t], u :: (front ++ (waiting ++ rest)), by simp, by simp, by simpa using ht,
              by simpa using hfront u (by simp), by simp⟩

theorem reorder_eq_self_iff {tokens : List Token} (h : ∀ t ∈ tokens, Ordered registry t) :
    reorder registry tokens = .ok tokens ↔ KeepsOrder registry tokens := by
  constructor
  · intro hself
    obtain ⟨front, waiting, rest, rfl, hfront, hwaiting, hrest, hne⟩ := exists_cut h
    rw [reorder_front_eq_iff hfront] at hself
    cases rest with
    | nil =>
        rw [List.append_nil] at hself ⊢
        exact ⟨front, waiting, rfl, hfront, hwaiting, (reorder_waiting_eq_iff hwaiting).mp hself⟩
    | cons t rest =>
        exact absurd hself (reorder_overtaken (hne (by simp)) hwaiting (hrest t rfl))
  · rintro ⟨front, waiting, rfl, hfront, hwaiting, hruns⟩
    rw [reorder_front_eq_iff hfront, reorder_waiting_eq_iff hwaiting]
    exact hruns

/-- **Reordering what has been reordered** succeeds and loses nothing, but it changes nothing only
where the order was one that is kept. -/
theorem reorder_reordered (registry : Registry) (tokens out : List Token)
    (h : reorder registry tokens = .ok out) :
    (∃ again, reorder registry out = .ok again ∧ again.Perm out) ∧
      (reorder registry out = .ok out ↔ KeepsOrder registry out) := by
  have hordered := ordered_of_reorder h
  exact ⟨exists_reorder hordered, reorder_eq_self_iff hordered⟩

/-- The order of `3+4*2` is kept: the sum waits until the product has been written out. -/
theorem reorder_reordered_sum :
    reorder .builtin [Token.number ['3'], Token.operator ['+'], Token.number ['4'],
        Token.operator ['*'], Token.number ['2']] =
      .ok [Token.number ['3'], Token.number ['4'], Token.number ['2'], Token.operator ['*'],
        Token.operator ['+']] ∧
    KeepsOrder .builtin [Token.number ['3'], Token.number ['4'], Token.number ['2'],
      Token.operator ['*'], Token.operator ['+']] := by
  have hordered : reorder .builtin [Token.number ['3'], Token.operator ['+'], Token.number ['4'],
      Token.operator ['*'], Token.number ['2']] = .ok [Token.number ['3'], Token.number ['4'],
        Token.number ['2'], Token.operator ['*'], Token.operator ['+']] := by
    decide +kernel
  exact ⟨hordered, (reorder_reordered .builtin _ _ hordered).2.mp (by decide +kernel)⟩

/-- The order of `(2+3)*4` is not: read again, the sum waits for the product. -/
theorem reorder_of_product_of_sum :
    reorder .builtin [Token.leftParen, Token.number ['2'], Token.operator ['+'],
        Token.number ['3'], Token.rightParen, Token.operator ['*'], Token.number ['4']] =
      .ok [Token.number ['2'], Token.number ['3'], Token.operator ['+'], Token.number ['4'],
        Token.operator ['*']] ∧
    reorder .builtin [Token.number ['2'], Token.number ['3'], Token.operator ['+'],
        Token.number ['4'], Token.operator ['*']] =
      .ok [Token.number ['2'], Token.number ['3'], Token.number ['4'], Token.operator ['*'],
        Token.operator ['+']] ∧
    [Token.number ['2'], Token.number ['3'], Token.number ['4'], Token.operator ['*'],
        Token.operator ['+']] ≠
      [Token.number ['2'], Token.number ['3'], Token.operator ['+'], Token.number ['4'],
        Token.operator ['*']] := by
  decide +kernel

end ReversePolish

end DecimalCalc
