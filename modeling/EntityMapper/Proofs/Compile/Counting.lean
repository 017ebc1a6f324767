import EntityMapper.Proofs.Compile.FromClauses
import EntityMapper.Proofs.Compile.Layouts

namespace EntityMapper

/-- A count over a derived table up to the body of the query in it. Every selected column has a name. -/
def Select.derivedHead (d : Dialect) (s : Select) : List Token :=
  countWord ++ words ["FROM"] ++ [.space, .symbol "("] ++
    words (if s.distinct then ["SELECT", "DISTINCT"] else ["SELECT"]) ++ [.space] ++
    joined comma ((outputColumns d s.outputs).mapIdx fun i column =>
      column ++ wordBetween "AS" ++ [.identifier (derivedName i)])

def derivedTail : List Token := .symbol ")" :: wordBetween "AS" ++ [.identifier "grappelli_count"]

/-- The rows of a query without what is fetched with them, their order and the page. -/
def Select.unpaged (s : Select) : Select :=
  { s with fetches := [], orderings := [], limit := none, offset := none }

/-- The sources, joins and filters of a query. -/
def Select.unselected (s : Select) : Select :=
  ⟨false, [], [], s.sources, s.joins, s.generated, s.filters, [], [], [], none, none⟩

namespace Select

theorem closed_countWord : Closed countWord := closed_append (words ["SELECT", "COUNT"]) (closed_parenthesized _)

theorem closed_derivedHead (d : Dialect) {s : Select} (listed : outputColumns d s.outputs ≠ []) :
    Closed (s.derivedHead d) := by
  refine closed_append _ (closed_joined comma (mt List.mapIdx_eq_nil_iff.mp listed) fun item member => ?_)
  obtain ⟨i, bound, rfl⟩ := List.mem_mapIdx.mp member
  exact closed_append _ (closed_singleton rfl)

/-- The body of a query is set off from what stands before it. -/
theorem frames (d : Dialect) (s : Select) {head : List Token} (closed : Closed head) (tail : List Token) :
    (Statement.ofTokens d (head ++ s.bodyTokens d ++ tail)).Frames d head (s.bodyTokens d) tail := by
  have start : ∃ rest, s.bodyTokens d = .space :: rest := ⟨_, rfl⟩
  obtain ⟨rest, body⟩ := start
  rw [body]
  exact Statement.frames_ofTokens d closed tail

theorem tokens_unpaged (d : Dialect) {s : Select} (listed : outputColumns d s.outputs ≠ []) :
    (CountQuery.derived s.unpaged).tokens d = s.derivedHead d ++ s.bodyTokens d ++ derivedTail := by
  have list : s.unpaged.selectList d = outputColumns d s.outputs := List.append_nil _
  have body : s.unpaged.bodyTokens d = s.bodyTokens d := rfl
  have none : s.unpaged.endTokens d = [] := by cases d <;> rfl
  have filled : (outputColumns d s.outputs).isEmpty = false := List.isEmpty_eq_false_iff.mpr listed
  have head : s.unpaged.headTokens d true =
      words (if s.distinct then ["SELECT", "DISTINCT"] else ["SELECT"]) ++ [.space] ++
        joined comma ((outputColumns d s.outputs).mapIdx fun i column =>
          column ++ wordBetween "AS" ++ [.identifier (derivedName i)]) := by
    rw [headTokens, list, filled, if_neg Bool.false_ne_true, aliasedColumns_true]
    simp only [Nat.zero_add]
    rfl
  rw [CountQuery.tokens, tokens_eq, head, body, none]
  simp only [derivedHead, derivedTail, parenthesized, List.append_assoc, List.cons_append, List.nil_append]

namespace Resolves

variable {registry : Registry} {p : Plan} {scope : Scope} {s : Select}

/-- A query whose rows can be read can be counted as a derived table. -/
theorem counted (r : Resolves registry [] .rows p scope s) : Select.ofPlan registry [] .counted p = .ok s.unpaged := by
  refine Select.ofPlan_eq_ok.mpr ⟨scope, ?_⟩
  obtain ⟨fetched, atFetches, _⟩ := r.fetches
  exact ⟨r.opened, r.projected, r.grouped, r.outputs, ⟨fetched, atFetches, rfl⟩, r.joins, r.filters, r.groups, r.havings,
    rfl, r.distinct, r.sources, r.generated, rfl, rfl⟩

/-- A query whose rows can be read can be counted on its sources. -/
theorem counting (r : Resolves registry [] .rows p scope s) : p.counting registry = .ok s.unselected := by
  obtain ⟨fetched, atFetches, _⟩ := r.fetches
  unfold Plan.counting
  simp only [r.opened, r.projected, atFetches, r.joins, r.filters, Except.ok_bind]
  rw [unselected, r.sources, r.generated]

/-- Without grouping and conditions on groups, the body ends with the filters. -/
theorem body_eq (r : Resolves registry [] .rows p scope s) (plain : p.needsDerivedCount = false) (d : Dialect) :
    s.bodyTokens d = s.fromTokens d ++ s.whereTokens d := by
  simp only [Plan.needsDerivedCount, Bool.or_eq_false_iff, Bool.not_eq_false', List.isEmpty_iff] at plain
  obtain ⟨⟨⟨_, ungrouped⟩, unrestricted⟩, _⟩ := plain
  have groups := r.groups
  have havings := r.havings
  rw [ungrouped] at groups
  rw [unrestricted] at havings
  have noGroups : s.groups = [] := (Except.ok.inj groups).symm
  have noHavings : s.havings = [] := (Except.ok.inj havings).symm
  rw [bodyTokens, noGroups, noHavings]
  exact (List.append_nil _).trans (List.append_nil _)

end Resolves

end Select

variable {registry : Registry} {d : Dialect} {p : Plan} {query : CompiledQuery}

/-- Whatever is compiled can be counted, and the count has the body of the query, the same tokens and the same
parameters. It is counted on its sources where the body is no more than sources, joins and filters, and as a derived
table with a name for each selected column elsewhere. -/
theorem compileCount_sameBody (run : compile registry d p = .ok query) :
    ∃ s count, p.resolve registry = .ok s ∧ compileCount registry d p = .ok count ∧
      query.statement.Frames d (s.headTokens d false) (s.bodyTokens d) (s.endTokens d) ∧
      (p.needsDerivedCount = false →
        s.bodyTokens d = s.fromTokens d ++ s.whereTokens d ∧ count.Frames d countWord (s.bodyTokens d) []) ∧
      (p.needsDerivedCount = true → count.Frames d (s.derivedHead d) (s.bodyTokens d) derivedTail ∧
        (outputColumns d s.outputs).length = Layout.visibleWidth p.projections ∧
        ((List.range (outputColumns d s.outputs).length).map derivedName).Nodup) := by
  obtain ⟨s, resolved, run⟩ := Except.bind_eq_ok.mp run
  cases run
  obtain ⟨scope, r⟩ := Select.ofPlan_eq_ok.mp resolved
  have listed := r.outputColumns_ne_nil d (by decide)
  have own :
      (Statement.ofTokens d (s.tokens d false)).Frames d (s.headTokens d false) (s.bodyTokens d) (s.endTokens d) := by
    rw [s.tokens_eq d false]
    exact s.frames d (closed_headTokens d false s) _
  cases derived : p.needsDerivedCount with
  | false =>
    refine ⟨s, .ofTokens d ((CountQuery.sources s.unselected).tokens d), resolved, ?_, own, fun _ => ?_,
      fun no => nomatch no⟩
    · rw [compileCount, Plan.resolveCount, derived, if_neg Bool.false_ne_true, r.counting]
      rfl
    · have body := r.body_eq derived d
      have tokens : (CountQuery.sources s.unselected).tokens d = countWord ++ s.bodyTokens d ++ [] := by
        rw [body, List.append_nil, ← List.append_assoc]
        rfl
      rw [tokens]
      exact ⟨body, s.frames d Select.closed_countWord []⟩
  | true =>
    refine ⟨s, .ofTokens d ((CountQuery.derived s.unpaged).tokens d), resolved, ?_, own, fun no => (nomatch no),
      fun _ => ?_⟩
    · rw [compileCount, Plan.resolveCount, derived, if_pos rfl, r.counted]
      rfl
    · rw [Select.tokens_unpaged d listed]
      exact ⟨s.frames d (Select.closed_derivedHead d listed) derivedTail, length_outputColumns d (r.widths d),
        List.nodup_range.map derivedName_injective⟩

theorem compileCount_sameBody_siblingTasks :
    (∃ s count, siblingTasks.resolve tracker = .ok s ∧ compileCount tracker .postgres siblingTasks = .ok count ∧
      count.Frames .postgres countWord (s.fromTokens .postgres ++ s.whereTokens .postgres) []) ∧
      ∃ s count, { siblingTasks with distinct := true }.resolve tracker = .ok s ∧
        compileCount tracker .postgres { siblingTasks with distinct := true } = .ok count ∧
        count.Frames .postgres (s.derivedHead .postgres) (s.bodyTokens .postgres) derivedTail ∧
        (outputColumns .postgres s.outputs).length = 4 := by
  have plain : compile tracker .postgres siblingTasks = .ok _ := rfl
  have distinct : compile tracker .postgres { siblingTasks with distinct := true } = .ok _ := rfl
  obtain ⟨s, count, resolved, counted, _, sources, _⟩ := compileCount_sameBody plain
  obtain ⟨t, total, found, totalled, _, _, derived⟩ := compileCount_sameBody distinct
  obtain ⟨body, frames⟩ := sources rfl
  obtain ⟨wrapped, columns, _⟩ := derived rfl
  exact ⟨⟨s, count, resolved, counted, body ▸ frames⟩, t, total, found, totalled, wrapped, columns⟩

end EntityMapper
