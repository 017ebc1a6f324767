import EntityMapper.Proofs.Compile.Parameters
import EntityMapper.Proofs.Sql.Templates

namespace EntityMapper

/-- Two runs that go on in step: the second starts from what the first starts from, mapped, and so does what follows. -/
theorem Except.bind_eq_map {ε α α' β β' : Type} {m : Except ε α} {m' : Except ε α'} {g : α → α'} {h : β → β'}
    {f : α → Except ε β} {f' : α' → Except ε β'} (first : m' = m.map g) (next : ∀ a, f' (g a) = (f a).map h) :
    (m' >>= f') = (m >>= f).map h := by
  subst first
  cases m with
  | ok a => exact next a
  | error e => rfl

theorem Except.bind_eq_map_bind {ε α β β' : Type} {m m' : Except ε α} {h : β → β'} {f : α → Except ε β}
    {f' : α → Except ε β'} (first : m' = m) (next : ∀ a, f' a = (f a).map h) : (m' >>= f') = (m >>= f).map h := by
  subst first
  cases m' with
  | ok a => exact next a
  | error e => rfl

mutual

/-- An expression with the template of each literal in its place, those of subqueries included. -/
def Expr.template : Expr → Expr
  | .path p => .path p
  | .literal v => .literal v.template
  | .aggregate f argument distinct => .aggregate f argument.template distinct
  | .subquery plan => .subquery plan.template
termination_by structural e => e

def Predicate.template : Predicate → Predicate
  | .compare left op right => .compare left.template op right.template
  | .between expr low high => .between expr.template low.template high.template
  | .inValues expr values negated => .inValues expr.template (exprTemplates values) negated
  | .inPlan expr plan negated => .inPlan expr.template plan.template negated
  | .isNull expr negated => .isNull expr.template negated
  | .exists plan negated => .exists plan.template negated
  | .and items => .and (predicateTemplates items)
  | .or items => .or (predicateTemplates items)
  | .not inner => .not inner.template
termination_by structural p => p

def Projection.template : Projection → Projection
  | .expr e => .expr e.template
  | .entity a => .entity a
termination_by structural p => p

def Join.template : Join → Join
  | ⟨kind, target, association, condition, fetch⟩ => ⟨kind, target, association, conditionTemplate condition, fetch⟩
termination_by structural j => j

def SortItem.template : SortItem → SortItem
  | ⟨expr, direction, nulls⟩ => ⟨expr.template, direction, nulls⟩
termination_by structural o => o

/-- A plan with the template of each literal in its place and the same number for every bound. Two plans have one
template if they differ in nothing but literals of one type each, none of which is null on one side only, and in the
numbers of their pages. -/
def Plan.template : Plan → Plan
  | ⟨projections, sources, joins, filters, groups, havings, orderings, offset, limit, distinct⟩ =>
    ⟨projectionTemplates projections, sources, joinTemplates joins, predicateTemplates filters, exprTemplates groups,
      predicateTemplates havings, sortTemplates orderings, offset.map fun _ => 0, limit.map fun _ => 0, distinct⟩
termination_by structural p => p

def conditionTemplate : Option Predicate → Option Predicate
  | none => none
  | some p => some p.template
termination_by structural p => p

def exprTemplates : List Expr → List Expr
  | [] => []
  | e :: rest => e.template :: exprTemplates rest
termination_by structural es => es

def predicateTemplates : List Predicate → List Predicate
  | [] => []
  | p :: rest => p.template :: predicateTemplates rest
termination_by structural ps => ps

def projectionTemplates : List Projection → List Projection
  | [] => []
  | p :: rest => p.template :: projectionTemplates rest
termination_by structural ps => ps

def joinTemplates : List Join → List Join
  | [] => []
  | j :: rest => j.template :: joinTemplates rest
termination_by structural js => js

def sortTemplates : List SortItem → List SortItem
  | [] => []
  | o :: rest => o.template :: sortTemplates rest
termination_by structural os => os

end

section Checks

/-! What is checked of a plan before it is resolved is the same of its template. -/

@[simp] theorem exprTemplates_eq (es : List Expr) : exprTemplates es = es.map Expr.template := by
  induction es with
  | nil => rfl
  | cons e rest ih => exact congrArg (e.template :: ·) ih

@[simp] theorem predicateTemplates_eq (ps : List Predicate) : predicateTemplates ps = ps.map Predicate.template := by
  induction ps with
  | nil => rfl
  | cons p rest ih => exact congrArg (p.template :: ·) ih

@[simp] theorem projectionTemplates_eq (ps : List Projection) :
    projectionTemplates ps = ps.map Projection.template := by
  induction ps with
  | nil => rfl
  | cons p rest ih => exact congrArg (p.template :: ·) ih

@[simp] theorem joinTemplates_eq (js : List Join) : joinTemplates js = js.map Join.template := by
  induction js with
  | nil => rfl
  | cons j rest ih => exact congrArg (j.template :: ·) ih

@[simp] theorem sortTemplates_eq (os : List SortItem) : sortTemplates os = os.map SortItem.template := by
  induction os with
  | nil => rfl
  | cons o rest ih => exact congrArg (o.template :: ·) ih

@[simp] theorem conditionTemplate_eq (p : Option Predicate) : conditionTemplate p = p.map Predicate.template := by
  cases p <;> rfl

@[simp] theorem Expr.isAggregate_template (e : Expr) : e.template.isAggregate = e.isAggregate := by cases e <;> rfl

theorem Expr.path?_template : ∀ e : Expr, e.template.path? = e.path?
  | .path _ => rfl
  | .literal _ => rfl
  | .aggregate _ argument _ => Expr.path?_template argument
  | .subquery _ => rfl

theorem Expr.dataType?_template : ∀ e : Expr, e.template.dataType? = e.dataType?
  | .path _ => rfl
  | .literal v => v.dataType?_template
  | .aggregate .count _ _ => rfl
  | .aggregate .avg _ _ => rfl
  | .aggregate .max argument _ => Expr.dataType?_template argument
  | .aggregate .min argument _ => Expr.dataType?_template argument
  | .aggregate .sum argument _ => Expr.dataType?_template argument
  | .subquery ⟨[.expr projected], _, _, _, _, _, _, _, _, _⟩ => Expr.dataType?_template projected
  | .subquery ⟨[], _, _, _, _, _, _, _, _, _⟩ => rfl
  | .subquery ⟨[.entity _], _, _, _, _, _, _, _, _, _⟩ => rfl
  | .subquery ⟨.expr _ :: _ :: _, _, _, _, _, _, _, _, _, _⟩ => rfl
  | .subquery ⟨.entity _ :: _ :: _, _, _, _, _, _, _, _, _, _⟩ => rfl

@[simp] theorem Projection.source?_template (p : Projection) : p.template.source? = p.source? := by cases p <;> rfl

@[simp] theorem Projection.expr?_template (p : Projection) : p.template.expr? = p.expr?.map Expr.template := by
  cases p <;> rfl

@[simp] theorem Projection.kind_template (p : Projection) : p.template.kind = p.kind := by
  cases p with
  | expr e => exact congrArg ItemKind.scalar e.dataType?_template
  | entity a => rfl

@[simp] theorem Join.fetch_template (j : Join) : j.template.fetch = j.fetch := by cases j; rfl

@[simp] theorem SortItem.expr_template (o : SortItem) : o.template.expr = o.expr.template := by cases o; rfl

mutual

theorem Predicate.exprs_template : ∀ p : Predicate, p.template.exprs = p.exprs.map Expr.template
  | .compare _ _ _ => rfl
  | .between _ _ _ => rfl
  | .inValues expr values _ => congrArg (expr.template :: ·) (exprTemplates_eq values)
  | .inPlan _ _ _ => rfl
  | .isNull _ _ => rfl
  | .exists _ _ => rfl
  | .and items => Predicate.exprsOfAll_templates items
  | .or items => Predicate.exprsOfAll_templates items
  | .not inner => Predicate.exprs_template inner
termination_by structural p => p

theorem Predicate.exprsOfAll_templates : ∀ ps : List Predicate,
    exprsOfAll (predicateTemplates ps) = (exprsOfAll ps).map Expr.template
  | [] => rfl
  | p :: rest => by
    have own := Predicate.exprs_template p
    have others := Predicate.exprsOfAll_templates rest
    rw [predicateTemplates, exprsOfAll, own, others, exprsOfAll, List.map_append]
termination_by structural ps => ps

end

variable (registry : Registry) (outer : List Scope) (role : Role) (p : Plan)

theorem paths_templates (inCondition : Bool) (es : List Expr) :
    ((es.map Expr.template).filterMap fun e => e.path?.map (·, inCondition)) =
      es.filterMap fun e => e.path?.map (·, inCondition) := by
  rw [List.filterMap_map]
  exact congrArg (es.filterMap ·) (funext fun e => congrArg (Option.map (·, inCondition)) e.path?_template)

theorem exprs_templates (ps : List Predicate) :
    (ps.map Predicate.template).flatMap Predicate.exprs = (ps.flatMap Predicate.exprs).map Expr.template := by
  rw [List.flatMap_map, List.map_flatMap]
  exact congrArg (ps.flatMap ·) (funext Predicate.exprs_template)

namespace Plan

/-- Literals are no paths, so the joins of a query do not depend on them. -/
theorem pathUses_template : p.template.pathUses = p.pathUses := by
  cases p with
  | mk projections sources joins filters groups havings orderings offset limit distinct =>
    have projected : (projections.map Projection.template).filterMap (·.expr?) =
        (projections.filterMap (·.expr?)).map Expr.template := by
      rw [List.filterMap_map, List.map_filterMap]
      exact congrArg (projections.filterMap ·) (funext Projection.expr?_template)
    have joined : (joins.map Join.template).flatMap (fun j => j.condition.elim [] Predicate.exprs) =
        (joins.flatMap fun j => j.condition.elim [] Predicate.exprs).map Expr.template := by
      rw [List.flatMap_map, List.map_flatMap]
      refine congrArg (joins.flatMap ·) (funext fun j => ?_)
      cases j with
      | mk kind target association condition fetch =>
        cases condition with
        | none => rfl
        | some q => exact q.exprs_template
    have ordered : (orderings.map SortItem.template).map (·.expr) = (orderings.map (·.expr)).map Expr.template := by
      rw [List.map_map, List.map_map]
      exact congrArg (List.map · orderings) (funext SortItem.expr_template)
    simp only [template, pathUses, projectionTemplates_eq, joinTemplates_eq, predicateTemplates_eq, exprTemplates_eq,
      sortTemplates_eq, projected, joined, ordered, ← List.map_append, exprs_templates, paths_templates]

theorem projectsAggregate_template : p.template.projectsAggregate = p.projectsAggregate := by
  cases p
  simp only [template, projectsAggregate, projectionTemplates_eq, List.any_map]
  refine congrArg (List.any _) (funext fun item => ?_)
  cases item with
  | expr e => exact e.isAggregate_template
  | entity a => rfl

theorem groupsBy_template (path : Path) : p.template.groupsBy path = p.groupsBy path := by
  cases p
  simp only [template, groupsBy, exprTemplates_eq, List.any_map]
  refine congrArg (List.any _) (funext fun e => ?_)
  cases e <;> rfl

theorem groupingFault?_template (item : Projection) :
    p.template.groupingFault? item.template = p.groupingFault? item := by
  cases item with
  | entity a => simp only [Projection.template, groupingFault?, groupsBy_template]
  | expr e =>
    cases e with
    | path path => simp only [Projection.template, Expr.template, groupingFault?, groupsBy_template]
    | _ => rfl

/-- Only paths are grouped, so no literal is compared with another one. -/
theorem checkGrouping_template : p.template.checkGrouping = p.checkGrouping := by
  have faults : p.template.projections.findSome? p.template.groupingFault? =
      p.projections.findSome? p.groupingFault? := by
    have listed : p.template.projections = p.projections.map Projection.template := by
      cases p
      exact projectionTemplates_eq _
    rw [listed, List.findSome?_map]
    exact congrArg (List.findSome? · p.projections) (funext (groupingFault?_template p))
  have grouped : p.template.groups.isEmpty = p.groups.isEmpty := by
    cases p
    simp [template]
  have fetched : p.template.joins.any (·.fetch) = p.joins.any (·.fetch) := by
    cases p
    simp only [template, joinTemplates_eq, List.any_map]
    exact congrArg (List.any _) (funext Join.fetch_template)
  rw [checkGrouping, projectsAggregate_template, grouped, faults, fetched, checkGrouping]

end Plan

theorem sources_templates (projections : List Projection) :
    (projections.map Projection.template).filterMap (·.source?) = projections.filterMap (·.source?) := by
  rw [List.filterMap_map]
  exact congrArg (projections.filterMap ·) (funext Projection.source?_template)

theorem checkProjections_templates (s : Scope) (projections : List Projection) :
    checkProjections s role (projections.map Projection.template) = checkProjections s role projections := by
  unfold checkProjections
  rw [List.isEmpty_map, sources_templates]

theorem fetchJoins_templates (owners : List String) (js : List Join) :
    fetchJoins owners (js.map Join.template) = fetchJoins owners js := by
  induction js generalizing owners with
  | nil => rfl
  | cons j rest ih =>
    cases j with
    | mk kind target association condition fetch =>
      have condition : (condition.map Predicate.template).isSome = condition.isSome := Option.isSome_map
      simp only [List.map_cons, Join.template, conditionTemplate_eq, fetchJoins, condition, ih]

theorem Plan.fetches_template : p.template.fetches role = p.fetches role := by
  cases p with
  | mk projections sources joins filters groups havings orderings offset limit distinct =>
    have fetching : (joins.map Join.template).filter (·.fetch) = (joins.filter (·.fetch)).map Join.template := by
      rw [List.filter_map]
      exact congrArg (fun fetch => (joins.filter fetch).map Join.template) (funext Join.fetch_template)
    simp only [template, fetches, projectionTemplates_eq, joinTemplates_eq, fetching, List.isEmpty_map,
      sources_templates, fetchJoins_templates]

/-- The scope of a query has no room for a literal. -/
theorem Scope.ofPlan_template : Scope.ofPlan registry outer p.template = Scope.ofPlan registry outer p := by
  have joined (s : Scope) : p.template.joins.foldlM (declareJoin outer) s = p.joins.foldlM (declareJoin outer) s := by
    cases p with
    | mk projections sources joins filters groups havings orderings offset limit distinct =>
      simp only [Plan.template, joinTemplates_eq, List.foldlM_map]
      refine congrArg (fun f => joins.foldlM f s) (funext fun t => funext fun j => ?_)
      cases j with
      | mk kind target association condition fetch => cases condition <;> rfl
  have sourced : p.template.sources = p.sources := by cases p; rfl
  simp only [Scope.ofPlan, sourced, joined, Plan.pathUses_template]

end Checks

section Resolved

variable {registry : Registry}

mutual

theorem Term.ofExpr_template : ∀ (e : Expr) (scopes : List Scope) (clause : Clause),
    Term.ofExpr registry scopes clause e.template = (Term.ofExpr registry scopes clause e).map Term.template
  | .path _, _, _ => Except.bind_eq_map_bind rfl fun _ => rfl
  | .literal _, _, _ => rfl
  | .aggregate f argument distinct, scopes, clause => by
    have inner := Term.ofExpr_template argument scopes clause
    rw [Expr.template, Term.ofExpr, Term.ofExpr, Expr.isAggregate_template]
    split
    · rfl
    · split
      · rfl
      · exact Except.bind_eq_map inner fun _ => rfl
  | .subquery plan, scopes, _ => Except.bind_eq_map (Select.ofPlan_template plan scopes .values) fun _ => rfl
termination_by structural e => e

theorem Condition.ofPredicate_template : ∀ (p : Predicate) (scopes : List Scope) (clause : Clause),
    Condition.ofPredicate registry scopes clause p.template =
      (Condition.ofPredicate registry scopes clause p).map Condition.template
  | .compare left _ right, scopes, clause =>
    Except.bind_eq_map (Term.ofExpr_template left scopes clause) fun _ =>
      Except.bind_eq_map (Term.ofExpr_template right scopes clause) fun _ => rfl
  | .between expr low high, scopes, clause =>
    Except.bind_eq_map (Term.ofExpr_template expr scopes clause) fun _ =>
      Except.bind_eq_map (Term.ofExpr_template low scopes clause) fun _ =>
        Except.bind_eq_map (Term.ofExpr_template high scopes clause) fun _ => rfl
  | .inValues expr values negated, scopes, clause => by
    have sought := Term.ofExpr_template expr scopes clause
    have listed := termsOfExprs_templates values scopes clause
    have empty : (exprTemplates values).isEmpty = values.isEmpty := by cases values <;> rfl
    rw [Predicate.template, Condition.ofPredicate, Condition.ofPredicate, empty]
    split
    · rfl
    · exact Except.bind_eq_map sought fun _ => Except.bind_eq_map listed fun _ => rfl
  | .inPlan expr plan _, scopes, clause =>
    Except.bind_eq_map (Term.ofExpr_template expr scopes clause) fun _ =>
      Except.bind_eq_map (Select.ofPlan_template plan scopes .values) fun _ => rfl
  | .isNull expr _, scopes, clause => Except.bind_eq_map (Term.ofExpr_template expr scopes clause) fun _ => rfl
  | .exists plan _, scopes, _ => Except.bind_eq_map (Select.ofPlan_template plan scopes .existence) fun _ => rfl
  | .and items, scopes, clause =>
    Except.bind_eq_map (conditionsOfPredicates_templates items scopes clause) fun _ => rfl
  | .or items, scopes, clause =>
    Except.bind_eq_map (conditionsOfPredicates_templates items scopes clause) fun _ => rfl
  | .not inner, scopes, clause => Except.bind_eq_map (Condition.ofPredicate_template inner scopes clause) fun _ => rfl
termination_by structural p => p

theorem Output.ofProjection_template : ∀ (p : Projection) (scopes : List Scope),
    Output.ofProjection registry scopes p.template = (Output.ofProjection registry scopes p).map Output.template
  | .expr e, scopes => Except.bind_eq_map (Term.ofExpr_template e scopes .select) fun _ => rfl
  | .entity _, _ => rfl
termination_by structural p => p

theorem JoinClause.ofJoin_template : ∀ (j : Join) (scopes : List Scope),
    JoinClause.ofJoin registry scopes j.template = (JoinClause.ofJoin registry scopes j).map JoinClause.template
  | ⟨_, _, _, condition, _⟩, scopes => Except.bind_eq_map (conditionOfOption_template condition scopes) fun _ => rfl
termination_by structural j => j

theorem SortKey.ofItem_template : ∀ (o : SortItem) (scopes : List Scope),
    SortKey.ofItem registry scopes o.template = (SortKey.ofItem registry scopes o).map SortKey.template
  | ⟨expr, _, _⟩, scopes => Except.bind_eq_map (Term.ofExpr_template expr scopes .orderBy) fun _ => rfl
termination_by structural o => o

/-- A query is resolved from a plan's template to its own template, or refused for the same reason. -/
theorem Select.ofPlan_template : ∀ (p : Plan) (outer : List Scope) (role : Role),
    Select.ofPlan registry outer role p.template = (Select.ofPlan registry outer role p).map Select.template
  | ⟨projections, sources, joins, filters, groups, havings, orderings, offset, limit, distinct⟩, outer, role => by
    have outputs := fun s => outputsOfProjections_templates projections (s :: outer)
    have clauses := fun s => clausesOfJoins_templates joins (s :: outer)
    have conditions := fun s => conditionsOfPredicates_templates filters (s :: outer) .filter
    have terms := fun s => termsOfExprs_templates groups (s :: outer) .groupBy
    have restrictions := fun s => conditionsOfPredicates_templates havings (s :: outer) .having
    have keys := fun s => keysOfItems_templates orderings (s :: outer)
    let p : Plan := ⟨projections, sources, joins, filters, groups, havings, orderings, offset, limit, distinct⟩
    refine Except.bind_eq_map_bind (Scope.ofPlan_template registry outer p) fun scope => ?_
    refine Except.bind_eq_map_bind ?_ fun _ => ?_
    · rw [projectionTemplates_eq]
      exact checkProjections_templates role scope projections
    refine Except.bind_eq_map_bind p.checkGrouping_template fun _ => ?_
    refine Except.bind_eq_map (outputs scope) fun _ => ?_
    refine Except.bind_eq_map_bind (p.fetches_template role) fun _ => ?_
    refine Except.bind_eq_map (clauses scope) fun _ => ?_
    refine Except.bind_eq_map (conditions scope) fun _ => ?_
    refine Except.bind_eq_map (terms scope) fun _ => ?_
    refine Except.bind_eq_map (restrictions scope) fun _ => ?_
    split
    · rfl
    · exact Except.bind_eq_map (keys scope) fun _ => rfl
termination_by structural p => p

theorem conditionOfOption_template : ∀ (p : Option Predicate) (scopes : List Scope),
    conditionOfOption registry scopes (conditionTemplate p) = (conditionOfOption registry scopes p).map onTemplate
  | none, _ => rfl
  | some p, scopes => Except.bind_eq_map (Condition.ofPredicate_template p scopes .join) fun _ => rfl
termination_by structural p => p

theorem termsOfExprs_templates : ∀ (es : List Expr) (scopes : List Scope) (clause : Clause),
    termsOfExprs registry scopes clause (exprTemplates es) =
      (termsOfExprs registry scopes clause es).map termTemplates
  | [], _, _ => rfl
  | e :: rest, scopes, clause =>
    Except.bind_eq_map (Term.ofExpr_template e scopes clause) fun _ =>
      Except.bind_eq_map (termsOfExprs_templates rest scopes clause) fun _ => rfl
termination_by structural es => es

theorem conditionsOfPredicates_templates : ∀ (ps : List Predicate) (scopes : List Scope) (clause : Clause),
    conditionsOfPredicates registry scopes clause (predicateTemplates ps) =
      (conditionsOfPredicates registry scopes clause ps).map conditionTemplates
  | [], _, _ => rfl
  | p :: rest, scopes, clause =>
    Except.bind_eq_map (Condition.ofPredicate_template p scopes clause) fun _ =>
      Except.bind_eq_map (conditionsOfPredicates_templates rest scopes clause) fun _ => rfl
termination_by structural ps => ps

theorem outputsOfProjections_templates : ∀ (ps : List Projection) (scopes : List Scope),
    outputsOfProjections registry scopes (projectionTemplates ps) =
      (outputsOfProjections registry scopes ps).map outputTemplates
  | [], _ => rfl
  | p :: rest, scopes =>
    Except.bind_eq_map (Output.ofProjection_template p scopes) fun _ =>
      Except.bind_eq_map (outputsOfProjections_templates rest scopes) fun _ => rfl
termination_by structural ps => ps

theorem clausesOfJoins_templates : ∀ (js : List Join) (scopes : List Scope),
    clausesOfJoins registry scopes (joinTemplates js) = (clausesOfJoins registry scopes js).map clauseTemplates
  | [], _ => rfl
  | j :: rest, scopes =>
    Except.bind_eq_map (JoinClause.ofJoin_template j scopes) fun _ =>
      Except.bind_eq_map (clausesOfJoins_templates rest scopes) fun _ => rfl
termination_by structural js => js

theorem keysOfItems_templates : ∀ (os : List SortItem) (scopes : List Scope),
    keysOfItems registry scopes (sortTemplates os) = (keysOfItems registry scopes os).map sortKeyTemplates
  | [], _ => rfl
  | o :: rest, scopes =>
    Except.bind_eq_map (SortKey.ofItem_template o scopes) fun _ =>
      Except.bind_eq_map (keysOfItems_templates rest scopes) fun _ => rfl
termination_by structural os => os

end

end Resolved

section Counted

variable (d : Dialect)

theorem Select.fromTokens_template (s : Select) :
    s.template.fromTokens d = (s.fromTokens d).map (Token.mapValue Value.template) := by
  cases s
  simp only [template, fromTokens, joinTokens_templates, List.map_append, mapValue_words, mapValue_sourceTokens,
    mapValue_generatedJoins]
  rfl

theorem Select.whereTokens_template (s : Select) :
    s.template.whereTokens d = (s.whereTokens d).map (Token.mapValue Value.template) := by
  cases s
  simp only [template, whereTokens, conditionTokens_templates,
    mapValue_clauseTokens _ _ (mapValue_wordBetween _ "AND")]

def CountQuery.template : CountQuery → CountQuery
  | sources s => sources s.template
  | derived s => derived s.template

theorem CountQuery.tokens_template (q : CountQuery) :
    q.template.tokens d = (q.tokens d).map (Token.mapValue Value.template) := by
  have word : countWord.map (Token.mapValue Value.template) = countWord := rfl
  cases q with
  | sources s =>
    rw [template, tokens, tokens, s.fromTokens_template, s.whereTokens_template, List.map_append, List.map_append, word]
  | derived s =>
    rw [template, tokens, tokens, s.tokens_template]
    simp only [List.map_append, word, mapValue_words, mapValue_parenthesized, mapValue_wordBetween]
    rfl

variable (registry : Registry) (p : Plan)

namespace Plan

theorem needsDerivedCount_template : p.template.needsDerivedCount = p.needsDerivedCount := by
  have aggregates := p.projectsAggregate_template
  rw [needsDerivedCount, aggregates, needsDerivedCount]
  cases p
  simp [template]

theorem counting_template : p.template.counting registry = (p.counting registry).map Select.template := by
  cases p with
  | mk projections sources joins filters groups havings orderings offset limit distinct =>
    let p : Plan := ⟨projections, sources, joins, filters, groups, havings, orderings, offset, limit, distinct⟩
    refine Except.bind_eq_map_bind (Scope.ofPlan_template registry [] p) fun scope => ?_
    refine Except.bind_eq_map_bind ?_ fun _ => ?_
    · rw [template, projectionTemplates_eq]
      exact checkProjections_templates .rows scope projections
    refine Except.bind_eq_map_bind (p.fetches_template .rows) fun _ => ?_
    refine Except.bind_eq_map (clausesOfJoins_templates joins [scope]) fun _ => ?_
    exact Except.bind_eq_map (conditionsOfPredicates_templates filters [scope] .filter) fun _ => rfl

theorem resolveCount_template :
    p.template.resolveCount registry = (p.resolveCount registry).map CountQuery.template := by
  rw [resolveCount, needsDerivedCount_template, resolveCount]
  split
  · exact Except.bind_eq_map (Select.ofPlan_template p [] .counted) fun _ => rfl
  · exact Except.bind_eq_map (p.counting_template registry) fun _ => rfl

end Plan

end Counted

section Layouts

/-- What the rows of a query are read by, apart from the projections: the shape of a result, the width of a row, the
offset, width and kind of each item, and the fetched columns. -/
structure Layout.Outline where
  shape : Shape
  width : Nat
  items : List (Nat × Nat × ItemKind)
  fetches : List FetchBinding
  deriving DecidableEq, Repr

def Layout.outline (l : Layout) : Outline :=
  ⟨l.shape, l.width, l.items.map fun item => (item.offset, item.width, item.kind), l.fetches⟩

/-- The text of a query and the outline of its rows. -/
def CompiledQuery.outline (c : CompiledQuery) : String × Layout.Outline := (c.statement.sql, c.layout.outline)

/-- The type of a literal is all that a layout has of it. -/
theorem Layout.outline_template (projections : List Projection) (fetches : List FetchJoin) :
    (ofProjections (projections.map Projection.template) fetches).outline =
      (ofProjections projections fetches).outline := by
  have items (offset : Nat) :
      (place offset (projections.map Projection.template)).map (fun item => (item.offset, item.width, item.kind)) =
        (place offset projections).map fun item => (item.offset, item.width, item.kind) := by
    induction projections generalizing offset with
    | nil => rfl
    | cons item rest ih =>
      have later := ih (offset + item.kind.width)
      simp only [List.map_cons, place, Projection.kind_template, later]
      rfl
  have width : visibleWidth (projections.map Projection.template) = visibleWidth projections := by
    rw [visibleWidth, List.map_map]
    exact congrArg (fun kind => (projections.map kind).foldr (· + ·) 0)
      (funext fun item => congrArg ItemKind.width item.kind_template)
  have shape : (ofProjections (projections.map Projection.template) fetches).shape =
      (ofProjections projections fetches).shape := by
    match projections with
    | [] => rfl
    | [item] => cases item <;> rfl
    | _ :: _ :: _ => rfl
  rw [outline, shape]
  simp only [outline, ofProjections, width, items]

end Layouts

section Changes

/-- Assignments with one value in the place of every value but null. -/
def Assignments.blank (assignments : Assignments) : Assignments := assignments.map fun (column, v) => (column, v.blank)

theorem Assignments.blank_eq {xs ys : Assignments} (columns : xs.map (·.1) = ys.map (·.1))
    (nulls : xs.map (·.2.isNull) = ys.map (·.2.isNull)) : xs.blank = ys.blank := by
  have rebuilt (zs : Assignments) : zs.blank =
      List.zipWith (fun column null => (column, if null then Value.null else .int 0)) (zs.map (·.1))
        (zs.map (·.2.isNull)) := by
    rw [List.zipWith_map, List.zipWith_self]
    rfl
  rw [rebuilt, rebuilt, columns, nulls]

variable (d : Dialect) (e : Entity)

theorem mapValue_insertTokens (assignments : Assignments) (returning : Bool) :
    (insertTokens d e assignments returning).map (Token.mapValue Value.blank) =
      insertTokens d e assignments.blank returning := by
  have key : (if returning && d.returnsKeys then words ["RETURNING"] ++ [.space, .identifier e.primaryKey.column]
      else []).map (Token.mapValue Value.blank) =
      if returning && d.returnsKeys then words ["RETURNING"] ++ [.space, .identifier e.primaryKey.column] else [] := by
    split <;> rfl
  cases assignments with
  | nil =>
    unfold insertTokens
    rw [List.map_append, key]
    cases d <;> rfl
  | cons first rest =>
    have columns (xs : Assignments) : (xs.map fun (column, _) => [Token.identifier column]).map
        (List.map (Token.mapValue Value.blank)) = xs.blank.map fun (column, _) => [Token.identifier column] := by
      simp [Assignments.blank, Token.mapValue]
    have values (xs : Assignments) : (xs.map fun (_, v) => [Token.value v]).map
        (List.map (Token.mapValue Value.blank)) = xs.blank.map fun (_, v) => [Token.value v] := by
      simp [Assignments.blank, Token.mapValue]
    unfold insertTokens
    rw [List.map_append, key]
    simp only [List.map_append, mapValue_words, mapValue_wordBetween, mapValue_parenthesized,
      mapValue_joined _ (mapValue_comma _), columns, values]
    rfl

theorem mapValue_updateTokens (assignments : Assignments) (id : Value) :
    (updateTokens e assignments id).map (Token.mapValue Value.blank) = updateTokens e assignments.blank id.blank := by
  have assigned : (assignments.map fun (column, v) => assignmentTokens column v).map
      (List.map (Token.mapValue Value.blank)) = assignments.blank.map fun (column, v) => assignmentTokens column v := by
    simp [Assignments.blank, assignmentTokens, Token.mapValue]
  unfold updateTokens
  simp only [List.map_append, mapValue_words, mapValue_joined _ (mapValue_comma _), assigned]
  rfl

theorem compileInsert_blank (assignments : Assignments) (returning : Bool) :
    (compileInsert d e assignments.blank returning).sql = (compileInsert d e assignments returning).sql := by
  rw [compileInsert, ← mapValue_insertTokens, Statement.sql_mapValue Value.isNull_blank]
  rfl

theorem compileUpdate_blank (assignments : Assignments) (id : Value) :
    (compileUpdate d e assignments.blank id.blank).map (·.sql) = (compileUpdate d e assignments id).map (·.sql) := by
  have empty : assignments.blank.isEmpty = assignments.isEmpty := List.isEmpty_map
  unfold compileUpdate
  rw [empty, ← mapValue_updateTokens]
  split
  · rfl
  · exact congrArg Except.ok (Statement.sql_mapValue Value.isNull_blank d _)

end Changes

section Plans

variable (registry : Registry) (d : Dialect) (p : Plan)

theorem compile_template : (compile registry d p.template).map CompiledQuery.outline =
    (compile registry d p).map CompiledQuery.outline := by
  have resolved : p.template.resolve registry = (p.resolve registry).map Select.template :=
    Select.ofPlan_template p [] .rows
  have projections : p.template.projections = p.projections.map Projection.template := by
    cases p
    exact projectionTemplates_eq _
  rw [compile, resolved, compile, projections]
  cases p.resolve registry with
  | error e => rfl
  | ok s =>
    have fetches : s.template.fetches = s.fetches := by cases s; rfl
    refine congrArg Except.ok (Prod.ext ?_ ?_)
    · change (Statement.ofTokens d (s.template.tokens d false)).sql = _
      rw [s.tokens_template, Statement.sql_mapValue Value.isNull_template]
      rfl
    · change (Layout.ofProjections _ s.template.fetches).outline = _
      rw [fetches, Layout.outline_template]
      rfl

theorem compileCount_template :
    (compileCount registry d p.template).map (·.sql) = (compileCount registry d p).map (·.sql) := by
  rw [compileCount, p.resolveCount_template, compileCount]
  cases p.resolveCount registry with
  | error e => rfl
  | ok q =>
    refine congrArg Except.ok ?_
    change (Statement.ofTokens d (q.template.tokens d)).sql = _
    rw [q.tokens_template, Statement.sql_mapValue Value.isNull_template]

end Plans

/-- Values never reach the text of a statement. Plans that differ in literals of one type each, at any depth, and in
the numbers of their pages are compiled to one text and one outline of rows, or refused for one reason, and so are
their counts. The text of a change depends on its columns and on which of its values are null. -/
theorem text_without_values (registry : Registry) (d : Dialect) :
    (∀ p q : Plan, p.template = q.template →
        (compile registry d p).map CompiledQuery.outline = (compile registry d q).map CompiledQuery.outline ∧
          (compileCount registry d p).map (·.sql) = (compileCount registry d q).map (·.sql)) ∧
      ∀ (e : Entity) (xs ys : Assignments), xs.map (·.1) = ys.map (·.1) →
        xs.map (·.2.isNull) = ys.map (·.2.isNull) →
          (∀ returning, (compileInsert d e xs returning).sql = (compileInsert d e ys returning).sql) ∧
            ∀ i j : Value, i.isNull = j.isNull →
              (compileUpdate d e xs i).map (·.sql) = (compileUpdate d e ys j).map (·.sql) := by
  refine ⟨fun p q same => ⟨?_, ?_⟩, fun e xs ys columns nulls => ⟨fun returning => ?_, fun i j null => ?_⟩⟩
  · rw [← compile_template registry d p, same, compile_template]
  · rw [← compileCount_template registry d p, same, compileCount_template]
  · rw [← compileInsert_blank, Assignments.blank_eq columns nulls, compileInsert_blank]
  · have key : i.blank = j.blank := by rw [Value.blank, null, Value.blank]
    rw [← compileUpdate_blank, Assignments.blank_eq columns nulls, key, compileUpdate_blank]

/-- The page of owners with other names, numbers and bounds, one of the names being a piece of SQL. -/
def ownersOtherPage : Plan where
  projections := [.expr (ownerOf "a")]
  sources := [⟨"a", accountEntity⟩]
  joins := []
  filters := [
    .inPlan (ownerOf "a") ⟨[.expr (ownerOf "b")], [⟨"b", accountEntity⟩], [],
      [.compare (ownerOf "b") .ne (.literal (.text "' OR 1 = 1 --"))], [], [], [], none, some 200, false⟩ false,
    .or [.inValues (.literal (.int 40)) [] true, .compare (ownerOf "a") .ne (.literal .null)]]
  groups := []
  havings := []
  orderings := [⟨ownerOf "a", .ascending, some .last⟩, ⟨.literal (.text ""), .descending, some .first⟩]
  offset := some 0
  limit := some 1
  distinct := false

theorem text_without_values_ownersPage :
    ((compile ⟨[accountEntity]⟩ .mysql ownersPage).map CompiledQuery.outline =
        (compile ⟨[accountEntity]⟩ .mysql ownersOtherPage).map CompiledQuery.outline ∧
      (compileCount ⟨[accountEntity]⟩ .mysql ownersPage).map (·.sql) =
        (compileCount ⟨[accountEntity]⟩ .mysql ownersOtherPage).map (·.sql)) ∧
      (compileInsert .mysql accountEntity [("id", .int 7), ("owner_name", .null)] false).sql =
        (compileInsert .mysql accountEntity [("id", .text "' --"), ("owner_name", .null)] false).sql ∧
      (compileUpdate .mysql accountEntity [("owner_name", .text "ann")] (.int 7)).map (·.sql) =
        (compileUpdate .mysql accountEntity [("owner_name", .text "' --")] (.int 8)).map (·.sql) := by
  obtain ⟨query, change⟩ := text_without_values ⟨[accountEntity]⟩ .mysql
  refine ⟨query ownersPage ownersOtherPage rfl, ?_, ?_⟩
  · exact (change accountEntity [("id", .int 7), ("owner_name", .null)] [("id", .text "' --"), ("owner_name", .null)]
      rfl rfl).1 false
  · exact (change accountEntity [("owner_name", .text "ann")] [("owner_name", .text "' --")] rfl rfl).2 (.int 7)
      (.int 8) rfl

end EntityMapper
