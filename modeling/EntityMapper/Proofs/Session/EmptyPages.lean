import EntityMapper.Proofs.Session.LateRefusals

namespace EntityMapper

variable {registry : Registry} {d : Dialect} {p : Plan}

/-- Of a query that is counted, everything is accepted but the select list and the order, which are not looked at yet. -/
structure Plan.Countable (registry : Registry) (p : Plan) (scope : Scope) : Prop where
  opened : Scope.ofPlan registry [] p = .ok scope
  projected : checkProjections scope .rows p.projections = .ok ()
  grouped : p.checkGrouping = .ok ()
  fetches : ∃ fetched, p.fetches .rows = .ok fetched
  joins : ∃ clauses, clausesOfJoins registry [scope] p.joins = .ok clauses
  filters : ∃ conditions, conditionsOfPredicates registry [scope] .filter p.filters = .ok conditions
  groups : ∃ terms, termsOfExprs registry [scope] .groupBy p.groups = .ok terms
  havings : ∃ conditions, conditionsOfPredicates registry [scope] .having p.havings = .ok conditions

/-- The error is one that a query is refused with for what its count does not look at: the order, or the select list where
it does not decide how many rows there are. -/
def Plan.RefusedUncounted (registry : Registry) (p : Plan) (scope : Scope) (e : Error) : Prop :=
  (p.needsDerivedCount = false ∧ outputsOfProjections registry [scope] p.projections = .error e) ∨
    ((∃ outputs, outputsOfProjections registry [scope] p.projections = .ok outputs) ∧
      keysOfItems registry [scope] p.orderings = .error e)

namespace Plan.Countable

variable {scope : Scope} {e : Error}

/-- What is left of a countable query fails in its select list or in its order. -/
theorem resolve_error (c : p.Countable registry scope) : p.resolve registry = .error e ↔
    outputsOfProjections registry [scope] p.projections = .error e ∨
      ((∃ outputs, outputsOfProjections registry [scope] p.projections = .ok outputs) ∧
        keysOfItems registry [scope] p.orderings = .error e) := by
  obtain ⟨opened, projected, grouped, ⟨fetched, fetches⟩, ⟨clauses, joins⟩, ⟨conditions, filters⟩, ⟨terms, groups⟩,
    ⟨restrictions, havings⟩⟩ := c
  cases p with
  | mk projections sources js fs gs hs orderings offset limit distinct =>
    dsimp only at projected fetches joins filters groups havings ⊢
    unfold resolve Select.ofPlan
    simp only [opened, projected, grouped, fetches, joins, filters, groups, havings, Except.ok_bind]
    cases outputs : outputsOfProjections registry [scope] projections with
    | error e' => simp [bind, Except.bind]
    | ok os =>
      cases keys : keysOfItems registry [scope] orderings with
      | error e' => simp [bind, Except.bind]
      | ok ks => simp [bind, Except.bind]

/-- A query without groups and aggregates is countable as soon as its sources, joins and filters are accepted. -/
theorem of_counting {s : Select} (plain : p.needsDerivedCount = false) (run : p.counting registry = .ok s) :
    ∃ scope, p.Countable registry scope := by
  simp only [needsDerivedCount, Bool.or_eq_false_iff, Bool.not_eq_false', List.isEmpty_iff] at plain
  obtain ⟨⟨⟨_, ungrouped⟩, unrestricted⟩, unaggregated⟩ := plain
  unfold counting at run
  obtain ⟨scope, opened, run⟩ := Except.bind_eq_ok.mp run
  obtain ⟨_, projected, run⟩ := Except.bind_eq_ok.mp run
  obtain ⟨fetched, fetches, run⟩ := Except.bind_eq_ok.mp run
  obtain ⟨clauses, joins, run⟩ := Except.bind_eq_ok.mp run
  obtain ⟨conditions, filters, run⟩ := Except.bind_eq_ok.mp run
  refine ⟨scope, opened, projected, ?_, ⟨fetched, fetches⟩, ⟨clauses, joins⟩, ⟨conditions, filters⟩, ⟨[], ?_⟩, ⟨[], ?_⟩⟩
  · simp [checkGrouping, unaggregated, ungrouped]
  · rw [ungrouped]
    rfl
  · rw [unrestricted]
    rfl

theorem counting (c : p.Countable registry scope) : ∃ s, p.counting registry = .ok s := by
  obtain ⟨fetched, fetches⟩ := c.fetches
  obtain ⟨clauses, joins⟩ := c.joins
  obtain ⟨conditions, filters⟩ := c.filters
  unfold Plan.counting
  simp only [c.opened, c.projected, fetches, joins, filters, Except.ok_bind]
  exact ⟨_, rfl⟩

/-- A query is counted as a derived table exactly when it is countable and its select list is accepted. -/
theorem derived_iff : (∃ s, Select.ofPlan registry [] .counted p = .ok s) ↔ ∃ scope, p.Countable registry scope ∧
    ∃ outputs, outputsOfProjections registry [scope] p.projections = .ok outputs := by
  constructor
  · rintro ⟨s, run⟩
    obtain ⟨scope, r⟩ := Select.ofPlan_eq_ok.mp run
    obtain ⟨fetched, fetches, _⟩ := r.fetches
    exact ⟨scope, ⟨r.opened, r.projected, r.grouped, ⟨fetched, fetches⟩, ⟨_, r.joins⟩, ⟨_, r.filters⟩, ⟨_, r.groups⟩,
      ⟨_, r.havings⟩⟩, _, r.outputs⟩
  · rintro ⟨scope, c, outputs, listed⟩
    obtain ⟨fetched, fetches⟩ := c.fetches
    obtain ⟨clauses, joins⟩ := c.joins
    obtain ⟨conditions, filters⟩ := c.filters
    obtain ⟨terms, groups⟩ := c.groups
    obtain ⟨restrictions, havings⟩ := c.havings
    refine ⟨⟨p.distinct, outputs, [], p.sources, clauses, scope.generated, conditions, terms, restrictions, [], none,
      none⟩, Select.ofPlan_eq_ok.mpr ⟨scope, ?_⟩⟩
    exact ⟨c.opened, c.projected, c.grouped, listed, ⟨fetched, fetches, rfl⟩, joins, filters, groups, havings, rfl, rfl,
      rfl, rfl, rfl, rfl⟩

end Plan.Countable

theorem compileCount_ok : (∃ count, compileCount registry d p = .ok count) ↔ ∃ scope, p.Countable registry scope ∧
    (p.needsDerivedCount = true → ∃ outputs, outputsOfProjections registry [scope] p.projections = .ok outputs) := by
  have resolved : (∃ count, compileCount registry d p = .ok count) ↔ ∃ query, p.resolveCount registry = .ok query := by
    unfold compileCount
    cases p.resolveCount registry with
    | ok query => exact ⟨fun _ => ⟨query, rfl⟩, fun _ => ⟨_, rfl⟩⟩
    | error e =>
      constructor
      · rintro ⟨_, run⟩
        cases run
      · rintro ⟨_, run⟩
        cases run
  rw [resolved]
  unfold Plan.resolveCount
  cases derived : p.needsDerivedCount with
  | true =>
    simp only [if_true, true_implies, ← Plan.Countable.derived_iff]
    constructor
    · rintro ⟨_, run⟩
      obtain ⟨s, run, _⟩ := Except.bind_eq_ok.mp run
      exact ⟨s, run⟩
    · rintro ⟨s, run⟩
      exact ⟨.derived s, Except.bind_eq_ok.mpr ⟨s, run, rfl⟩⟩
  | false =>
    rw [if_neg Bool.false_ne_true]
    constructor
    · rintro ⟨_, run⟩
      obtain ⟨s, run, _⟩ := Except.bind_eq_ok.mp run
      obtain ⟨scope, c⟩ := Plan.Countable.of_counting derived run
      exact ⟨scope, c, fun no => nomatch no⟩
    · rintro ⟨scope, c, _⟩
      obtain ⟨s, run⟩ := c.counting
      exact ⟨.sources s, Except.bind_eq_ok.mpr ⟨s, run, rfl⟩⟩

/-- A refused query is counted all the same exactly when it is refused for what its count does not look at. -/
theorem compileCount_of_refused {e : Error} (refused : compile registry d p = .error e) :
    (∃ count, compileCount registry d p = .ok count) ↔
      ∃ scope, p.Countable registry scope ∧ p.RefusedUncounted registry scope e := by
  have unresolved : p.resolve registry = .error e := by
    rcases Except.bind_eq_error refused with failed | ⟨s, _, run⟩
    · exact failed
    · cases run
  rw [compileCount_ok]
  refine exists_congr fun scope => and_congr_right fun c => ?_
  rw [Plan.RefusedUncounted]
  rcases c.resolve_error.mp unresolved with unlisted | ⟨⟨outputs, listed⟩, unordered⟩
  · rw [unlisted]
    simp
  · rw [listed, unordered]
    simp

namespace Session

variable {α : Type} {decode : Record → Except Error α} {w after : Work} {e : Error}

/-- A page of a query that is refused is read exactly when no row is counted. -/
theorem fetchPage_ok_iff {page : Page α} (refused : compile w.registry w.dialect p = .error e) :
    fetchPage decode p w = .ok page after ↔ fetchCount p w = .ok 0 after ∧ page = ⟨[], 0, p.offset, p.limit⟩ := by
  constructor
  · intro run
    obtain ⟨total, middle, counted, later⟩ := bind_ok run
    by_cases none : total = 0
    · subst none
      rw [if_pos rfl] at later
      cases later
      exact ⟨counted, rfl⟩
    · obtain ⟨unit, store, _, rfl, _⟩ := fetchCount_ok counted
      rw [fetchPage_error counted none (fetchRecords_uncompiled refused)] at run
      cases run
  · rintro ⟨counted, rfl⟩
    unfold fetchPage
    rw [bind_run, counted]
    rfl

end Session

theorem Session.fetchCount_answering {w : Work} (rows : RowSet) (active : w.unit.checkActive "execute" = .ok ())
    {count : Statement} (counted : compileCount w.registry w.dialect p = .ok count) {total : Nat}
    (reads : countOf rows = .ok total) : ∃ after, fetchCount p (w.answering rows) = .ok total after := by
  have statement : compileCount (w.answering rows).registry (w.answering rows).dialect p = .ok count := counted
  refine ⟨{ w with store := w.store.note (.statement count) }, ?_⟩
  unfold fetchCount
  rw [bind_run, get_run]
  dsimp only
  rw [statement, check, pure_bind, bind_run, run_answering active]
  dsimp only
  rw [reads]
  rfl

/-- Some session reads a page of the query, whatever it decodes the results as and whatever its store answers. -/
def Plan.HasPage (registry : Registry) (d : Dialect) (p : Plan) : Prop :=
  ∃ (α : Type) (decode : Record → Except Error α) (w : Work) (page : Page α) (after : Work),
    w.registry = registry ∧ w.dialect = d ∧ Session.fetchPage decode p w = .ok page after

/-- A query that is refused has a page exactly when it can be counted, that is, when it is refused for its order or for a
select list that does not decide how many rows there are. The page is then empty, and read exactly when no row is counted.
Where rows are counted the page is refused like the query. -/
theorem fetchPage_of_refused {e : Error} (refused : compile registry d p = .error e) :
    (p.HasPage registry d ↔ ∃ scope, p.Countable registry scope ∧ p.RefusedUncounted registry scope e) ∧
    ∀ (α : Type) (decode : Record → Except Error α) (w : Work), w.registry = registry → w.dialect = d →
      (∀ page after, Session.fetchPage decode p w = .ok page after ↔
        Session.fetchCount p w = .ok 0 after ∧ page = ⟨[], 0, p.offset, p.limit⟩) ∧
      ∀ total middle, Session.fetchCount p w = .ok total middle → total ≠ 0 →
        Session.fetchPage decode p w = .error e middle := by
  constructor
  · rw [← compileCount_of_refused refused]
    constructor
    · rintro ⟨α, decode, w, page, after, rfl, rfl, run⟩
      obtain ⟨counted, _⟩ := (Session.fetchPage_ok_iff refused).mp run
      obtain ⟨_, _, got, counting⟩ := bind_ok counted
      cases got
      obtain ⟨count, _, compiled, _⟩ := bind_ok counting
      exact ⟨count, (Session.check_ok compiled).1⟩
    · rintro ⟨count, counted⟩
      obtain ⟨after, empty⟩ :=
        Session.fetchCount_answering (w := .begun registry d) ⟨["count"], [[.int 0]]⟩ rfl counted (by rfl)
      exact ⟨Record, .ok, _, _, after, rfl, rfl, (Session.fetchPage_ok_iff refused).mpr ⟨empty, rfl⟩⟩
  · rintro α decode w rfl rfl
    refine ⟨fun page after => Session.fetchPage_ok_iff refused, fun total middle counted some => ?_⟩
    obtain ⟨unit, store, _, rfl, _⟩ := Session.fetchCount_ok counted
    exact Session.fetchPage_error counted some (Session.fetchRecords_uncompiled refused)

namespace Program

/-- The members with a name that no alias of the plan has. -/
def hauntedMembers : Plan :=
  { Plan.ofEntity ⟨"member", memberEntity⟩ with
    filters := [.isNull (.path ⟨"ghost", "member", [], "name", "user_name", .text⟩) false] }

theorem fetchPage_of_refused_hauntedMembers :
    compile ⟨[memberEntity]⟩ .postgres hauntedMembers = .error (.invalidPlan (.unknownAlias "ghost" "ghost.name")) ∧
      ¬hauntedMembers.HasPage ⟨[memberEntity]⟩ .postgres := by
  have refused : compile ⟨[memberEntity]⟩ .postgres hauntedMembers =
      .error (.invalidPlan (.unknownAlias "ghost" "ghost.name")) := rfl
  refine ⟨refused, fun page => ?_⟩
  obtain ⟨scope, countable, _⟩ := (fetchPage_of_refused refused).1.mp page
  obtain ⟨_, filters⟩ := countable.filters
  have opened : Scope.ofPlan ⟨[memberEntity]⟩ [] hauntedMembers = .ok _ := rfl
  cases opened.symm.trans countable.opened
  cases filters

/-- The store is going to count no members. -/
def counted : Program := saved.run [.answer [.rows ⟨["count"], [[.int 0]]⟩]]

/-- A query whose order is refused has a page when no row is counted. -/
theorem fetchPage_empty_of_refused : counted.Reachable ∧ ∃ w after, counted.work "main" = some w ∧
    compile w.registry w.dialect ghostly = .error (.invalidPlan (.unknownAlias "ghost" "ghost.name")) ∧
    Session.fetchPage ResultType.entity.decode ghostly w = .ok ⟨[], 0, none, none⟩ after ∧
    ghostly.HasPage w.registry w.dialect := by
  have page : Session.fetchPage ResultType.entity.decode ghostly ((counted.work "main").getD default) =
      .ok ⟨[], 0, none, none⟩ _ := rfl
  exact ⟨((reachable_start _).run _).run _, _, _, rfl, rfl, page, _, _, _, _, _, rfl, rfl, page⟩

end Program

end EntityMapper
