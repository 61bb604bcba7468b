import DecimalCalc.Expression.Registry
import Mathlib.Data.List.Induction
import Mathlib.Data.List.Nodup

/-!
# Runs of a registry

What a registry shows after any row of requests, from the empty one on (`Registry.run_shows`). A
symbol has the entry **last** registered for it, while the order is that in which the symbols were
**first** registered. Requests after the first freeze leave no trace.

`Registry.Shows` says what a registry shows where certain entries have been registered, and one more
entry keeps it so (`Shows.put`). A run up to the first freeze is just a row of such entries.
-/

set_option autoImplicit false

namespace DecimalCalc

/-! ## What some entries amount to -/

namespace Entry

/-- The entry last registered for a symbol. -/
def latest? (entries : List Entry) (symbol : List Char) : Option Entry :=
  entries.reverse.find? fun e => e.symbol = symbol

/-- The symbols of some entries, in the order in which they first stand there. -/
def firstOrder (entries : List Entry) : List (List Char) :=
  (entries.map Entry.symbol).eraseDups

variable {entries : List Entry} {e : Entry} {symbol : List Char}

theorem latest?_concat : latest? (entries ++ [e]) symbol =
    if e.symbol = symbol then some e else latest? entries symbol := by
  rw [latest?, List.reverse_append, List.reverse_singleton, List.singleton_append]
  by_cases h : e.symbol = symbol
  · rw [List.find?_cons_of_pos (by simpa using h), if_pos h]
  · rw [List.find?_cons_of_neg (by simpa using h), if_neg h, latest?]

theorem latest?_eq_none : latest? entries symbol = none ↔ symbol ∉ entries.map Entry.symbol := by
  simp [latest?]

theorem mem_firstOrder : symbol ∈ firstOrder entries ↔ symbol ∈ entries.map Entry.symbol :=
  List.mem_eraseDups

theorem firstOrder_concat : firstOrder (entries ++ [e]) =
    if e.symbol ∈ firstOrder entries then firstOrder entries
    else firstOrder entries ++ [e.symbol] := by
  rw [firstOrder, List.map_append, List.eraseDups_append, ← firstOrder]
  by_cases h : e.symbol ∈ firstOrder entries
  · have hold : e.symbol ∈ entries.map Entry.symbol := mem_firstOrder.mp h
    simp [h, List.removeAll, List.mem_map.mp hold]
  · have hnew : e.symbol ∉ entries.map Entry.symbol := fun hold => h (mem_firstOrder.mpr hold)
    have hkeep : [e.symbol].removeAll (entries.map Entry.symbol) = [e.symbol] := by
      rw [List.removeAll, List.filter_eq_self]
      simpa using hnew
    rw [if_neg h, List.map_singleton, hkeep]
    rfl

theorem nodup_firstOrder (entries : List Entry) : (firstOrder entries).Nodup := by
  induction entries using List.reverseRecOn with
  | nil => exact List.nodup_nil
  | append_singleton entries e ih =>
      rw [firstOrder_concat]
      by_cases h : e.symbol ∈ firstOrder entries
      · rwa [if_pos h]
      · rw [if_neg h]
        exact List.nodup_append.mpr ⟨ih, List.nodup_singleton _, by
          rintro s hs _ ht rfl
          exact h (List.mem_singleton.mp ht ▸ hs)⟩

end Entry

namespace Registry

open Entry (latest? firstOrder)

variable {r : Registry} {entries given : List Entry} {e : Entry} {symbol : List Char}

/-! ## Putting an entry -/

theorem find?_put : (put e entries).find? (fun old => old.symbol = symbol) =
    if e.symbol = symbol then some e else entries.find? fun old => old.symbol = symbol := by
  induction entries with
  | nil => by_cases h : e.symbol = symbol <;> simp [put, h]
  | cons old rest ih =>
      unfold put
      by_cases hold : old.symbol = e.symbol
      · by_cases h : e.symbol = symbol <;> simp [hold, h]
      · rw [if_neg hold]
        by_cases h : old.symbol = symbol
        · have hother : e.symbol ≠ symbol := fun heq => hold (h.trans heq.symm)
          simp [h, hother]
        · simp [h, ih]

/-- A new symbol comes last; the others stay where they are. -/
theorem symbols_put : (put e entries).map Entry.symbol =
    if e.symbol ∈ entries.map Entry.symbol then entries.map Entry.symbol
    else entries.map Entry.symbol ++ [e.symbol] := by
  induction entries with
  | nil => simp [put]
  | cons old rest ih =>
      unfold put
      by_cases hold : old.symbol = e.symbol
      · simp [hold]
      · have hne : e.symbol ≠ old.symbol := fun heq => hold heq.symm
        rw [if_neg hold, List.map_cons, ih]
        by_cases h : e.symbol ∈ rest.map Entry.symbol
        · rw [if_pos h, List.map_cons, if_pos (List.mem_cons_of_mem _ h)]
        · rw [if_neg h, List.map_cons, if_neg (by simpa [hne] using h), List.cons_append]

/-- Where symbols differ, each entry is the one that is found for its symbol. -/
theorem map_some_eq (h : (entries.map Entry.symbol).Nodup) :
    entries.map some =
      (entries.map Entry.symbol).map fun s => entries.find? fun old => old.symbol = s := by
  rw [List.map_map]
  refine List.map_congr_left fun e he => ?_
  obtain ⟨found, hfound⟩ : ∃ found, entries.find? (fun old => old.symbol = e.symbol) = some found :=
    Option.isSome_iff_exists.mp (List.find?_isSome.mpr ⟨e, he, by simp⟩)
  have hsymbol : found.symbol = e.symbol := by simpa using List.find?_some hfound
  have hsame : found = e :=
    List.inj_on_of_nodup_map h (List.mem_of_find?_eq_some hfound) he hsymbol
  rw [Function.comp_apply, hfound, hsame]

/-! ## What a registry shows -/

/-- **What a registry shows** where some entries have been registered, in this order. -/
structure Shows (r : Registry) (given : List Entry) : Prop where
  find? : ∀ symbol, r.find? symbol = latest? given symbol
  symbols : r.symbols = firstOrder given

namespace Shows

theorem empty : Shows {} [] := ⟨fun _ => rfl, rfl⟩

/-- **One more entry.** -/
theorem put (h : Shows r given) (e : Entry) :
    Shows { r with entries := put e r.entries } (given ++ [e]) := by
  constructor
  · intro symbol
    rw [Entry.latest?_concat, ← h.find? symbol]
    exact find?_put
  · have hsymbols : r.entries.map Entry.symbol = firstOrder given := h.symbols
    rw [Entry.firstOrder_concat, ← hsymbols]
    exact symbols_put

theorem nodup (h : Shows r given) : r.symbols.Nodup := by
  rw [h.symbols]
  exact Entry.nodup_firstOrder given

/-- The entries are the last ones of their symbols. -/
theorem current (h : Shows r given) : r.entries.map some = r.symbols.map (latest? given) :=
  (map_some_eq h.nodup).trans (List.map_congr_left fun symbol _ => h.find? symbol)

theorem size_eq (h : Shows r given) : r.size = (firstOrder given).length := by
  rw [← h.symbols, Registry.symbols, List.length_map, size]

theorem contains_eq (h : Shows r given) (symbol : List Char) :
    r.contains symbol = (latest? given symbol).isSome := by
  rw [Bool.eq_iff_iff, contains, List.contains_iff_mem, h.symbols, Entry.mem_firstOrder,
    Option.isSome_iff_ne_none, ne_eq, Entry.latest?_eq_none, not_not]

theorem lookup_eq (h : Shows r given) (symbol : List Char) :
    r.lookup symbol =
      (latest? given symbol).elim (.error (.unknownSymbol symbol)) .ok := by
  rw [lookup, h.find? symbol]
  cases latest? given symbol <;> rfl

theorem lookup_eq_error (h : Shows r given) (symbol : List Char) :
    r.lookup symbol = .error (.unknownSymbol symbol) ↔ symbol ∉ given.map Entry.symbol := by
  rw [h.lookup_eq, ← Entry.latest?_eq_none]
  cases latest? given symbol <;> simp

theorem freeze (h : Shows r given) : Shows r.freeze given := ⟨h.find?, h.symbols⟩

end Shows

/-! ## Runs -/

/-- What is asked of a registry. -/
inductive Request
  | register (e : Entry)
  | freeze

/-- The registry after a request, which is the same one if the request is refused. -/
def after (r : Registry) : Request → Registry
  | .register e => (r.register e).toOption.getD r
  | .freeze => r.freeze

/-- The registry after some requests. -/
def afterAll (r : Registry) (requests : List Request) : Registry := requests.foldl after r

/-- The empty registry after some requests. -/
def run (requests : List Request) : Registry := afterAll {} requests

/-- The entries that are registered before the first freeze. -/
def registered : List Request → List Entry
  | [] => []
  | .register e :: rest => e :: registered rest
  | .freeze :: _ => []

theorem afterAll_cons (request : Request) (rest : List Request) :
    r.afterAll (request :: rest) = (r.after request).afterAll rest := rfl

theorem register_of_frozen (h : r.frozen = true) (e : Entry) :
    r.register e = .error (.frozenRegistry e.symbol) := by
  rw [register, if_pos h]

theorem register_of_open (h : r.frozen = false) (e : Entry) :
    r.register e = .ok { r with entries := put e r.entries } := by
  rw [register, if_neg (by simp [h])]

theorem after_register_of_open (h : r.frozen = false) (e : Entry) :
    r.after (.register e) = { r with entries := put e r.entries } := by
  rw [after, register_of_open h]
  rfl

theorem after_of_frozen (h : r.frozen = true) (request : Request) : r.after request = r := by
  cases request with
  | register e =>
      rw [after, register_of_frozen h]
      rfl
  | freeze =>
      obtain ⟨entries, frozen⟩ := r
      cases h
      rfl

/-- **A frozen registry never changes.** -/
theorem afterAll_of_frozen (h : r.frozen = true) (requests : List Request) :
    r.afterAll requests = r := by
  induction requests with
  | nil => rfl
  | cons request rest ih => rw [afterAll_cons, after_of_frozen h, ih]

/-- What a registry shows after some requests, if it is not frozen before. -/
theorem Shows.afterAll (requests : List Request) : ∀ {r : Registry} {given : List Entry},
    Shows r given → r.frozen = false →
      Shows (r.afterAll requests) (given ++ registered requests) := by
  induction requests with
  | nil =>
      intro r given h _
      rwa [registered, List.append_nil]
  | cons request rest ih =>
      intro r given h hopen
      rw [afterAll_cons]
      cases request with
      | register e =>
          rw [after_register_of_open hopen, registered, List.append_cons]
          exact ih (h.put e) hopen
      | freeze =>
          -- nothing that comes later counts
          rw [after, afterAll_of_frozen rfl, registered, List.append_nil]
          exact h.freeze

theorem frozen_afterAll (requests : List Request) : ∀ {r : Registry}, r.frozen = false →
    ((r.afterAll requests).frozen = true ↔ .freeze ∈ requests) := by
  induction requests with
  | nil =>
      intro r hopen
      simp [Registry.afterAll, hopen]
  | cons request rest ih =>
      intro r hopen
      rw [afterAll_cons]
      cases request with
      | register e =>
          have hnext : ({ r with entries := put e r.entries } : Registry).frozen = false := hopen
          rw [after_register_of_open hopen, ih hnext]
          simp
      | freeze =>
          rw [after, afterAll_of_frozen rfl]
          simp [Registry.freeze]

theorem shows_run (requests : List Request) : Shows (run requests) (registered requests) :=
  Shows.empty.afterAll requests rfl

theorem frozen_run {requests : List Request} :
    (run requests).frozen = true ↔ .freeze ∈ requests := frozen_afterAll requests rfl

/-- **Runs of a registry.** It has the entry last registered for a symbol, knows no other symbols,
and keeps the order in which they were first registered, each with its current entry. After a freeze
every entry is refused, and whatever is asked for leaves the registry as it is. -/
theorem run_observed (requests : List Request) :
    (∀ symbol, (run requests).find? symbol = latest? (registered requests) symbol ∧
      (run requests).lookup symbol =
        (latest? (registered requests) symbol).elim (.error (.unknownSymbol symbol)) .ok ∧
      (run requests).contains symbol = (latest? (registered requests) symbol).isSome ∧
      ((run requests).lookup symbol = .error (.unknownSymbol symbol) ↔
        symbol ∉ (registered requests).map Entry.symbol)) ∧
    (run requests).symbols = firstOrder (registered requests) ∧
    (run requests).symbols.Nodup ∧
    (run requests).entries.map some =
      (run requests).symbols.map (latest? (registered requests)) ∧
    (run requests).size = (firstOrder (registered requests)).length ∧
    ((run requests).frozen = true ↔ .freeze ∈ requests) ∧
    (∀ e, .freeze ∉ requests → (run requests).register e = .ok (run (requests ++ [.register e]))) ∧
    (∀ e, .freeze ∈ requests → (run requests).register e = .error (.frozenRegistry e.symbol)) ∧
    ∀ later, .freeze ∈ requests → run (requests ++ later) = run requests := by
  have hshows := shows_run requests
  have happend : ∀ later, run (requests ++ later) = (run requests).afterAll later := fun later =>
    List.foldl_append
  refine ⟨fun symbol => ⟨hshows.find? symbol, hshows.lookup_eq symbol, hshows.contains_eq symbol,
    hshows.lookup_eq_error symbol⟩, hshows.symbols, hshows.nodup, hshows.current, hshows.size_eq,
    frozen_run, ?_, ?_, ?_⟩
  · intro e hopen
    have hfrozen : (run requests).frozen = false := by
      rw [Bool.eq_false_iff, ne_eq, frozen_run]
      exact hopen
    rw [happend, afterAll_cons, after_register_of_open hfrozen, register_of_open hfrozen]
    rfl
  · intro e hfreeze
    exact register_of_frozen (frozen_run.mpr hfreeze) e
  · intro later hfreeze
    rw [happend, afterAll_of_frozen (frozen_run.mpr hfreeze)]

end Registry

end DecimalCalc
