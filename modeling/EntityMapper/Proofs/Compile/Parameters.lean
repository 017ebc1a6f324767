import EntityMapper.Proofs.Action
import EntityMapper.Proofs.Sql.Rendered

namespace EntityMapper

/-- The place of nulls is told by a sort key of its own, which repeats the ordered expression. -/
def repeatsKey (d : Dialect) (nulls : Option NullPlacement) : Bool := nulls.isSome && !d.ordersNulls

mutual

/-- The literals of an expression in the order of its text. Null is none of them. -/
def Expr.literals (d : Dialect) : Expr → List Value
  | .path _ => []
  | .literal v => if v.isNull then [] else [v]
  | .aggregate _ argument _ => argument.literals d
  | .subquery plan => plan.literals d
termination_by structural e => e

/-- The literals of a condition. Membership in an empty list has none, whatever is looked for. -/
def Predicate.literals (d : Dialect) : Predicate → List Value
  | .compare left _ right => left.literals d ++ right.literals d
  | .between expr low high => expr.literals d ++ low.literals d ++ high.literals d
  | .inValues expr values _ => if values.isEmpty then [] else expr.literals d ++ exprLiterals d values
  | .inPlan expr plan _ => expr.literals d ++ plan.literals d
  | .isNull expr _ => expr.literals d
  | .exists plan _ => plan.literals d
  | .and items => predicateLiterals d items
  | .or items => predicateLiterals d items
  | .not inner => inner.literals d
termination_by structural p => p

def Projection.literals (d : Dialect) : Projection → List Value
  | .expr e => e.literals d
  | .entity _ => []
termination_by structural p => p

def Join.literals (d : Dialect) : Join → List Value
  | ⟨_, _, _, condition, _⟩ => conditionLiterals d condition
termination_by structural j => j

def SortItem.literals (d : Dialect) : SortItem → List Value
  | ⟨expr, _, nulls⟩ => if repeatsKey d nulls then expr.literals d ++ expr.literals d else expr.literals d
termination_by structural o => o

/-- The literals of a plan, clause by clause, with those of each subquery at its place. -/
def Plan.literals (d : Dialect) : Plan → List Value
  | ⟨projections, _, joins, filters, groups, havings, orderings, offset, limit, _⟩ =>
    projectionLiterals d projections ++ joinLiterals d joins ++ predicateLiterals d filters ++ exprLiterals d groups ++
      predicateLiterals d havings ++ sortLiterals d orderings ++ limit.toList.map boundValue ++
      offset.toList.map boundValue
termination_by structural p => p

def conditionLiterals (d : Dialect) : Option Predicate → List Value
  | none => []
  | some p => p.literals d
termination_by structural p => p

def exprLiterals (d : Dialect) : List Expr → List Value
  | [] => []
  | e :: rest => e.literals d ++ exprLiterals d rest
termination_by structural es => es

def predicateLiterals (d : Dialect) : List Predicate → List Value
  | [] => []
  | p :: rest => p.literals d ++ predicateLiterals d rest
termination_by structural ps => ps

def projectionLiterals (d : Dialect) : List Projection → List Value
  | [] => []
  | p :: rest => p.literals d ++ projectionLiterals d rest
termination_by structural ps => ps

def joinLiterals (d : Dialect) : List Join → List Value
  | [] => []
  | j :: rest => j.literals d ++ joinLiterals d rest
termination_by structural js => js

def sortLiterals (d : Dialect) : List SortItem → List Value
  | [] => []
  | o :: rest => o.literals d ++ sortLiterals d rest
termination_by structural os => os

end

/-- The literals of the clauses that a query keeps when its rows are counted as a table. -/
def Plan.tableLiterals (d : Dialect) (p : Plan) : List Value :=
  projectionLiterals d p.projections ++ joinLiterals d p.joins ++ predicateLiterals d p.filters ++
    exprLiterals d p.groups ++ predicateLiterals d p.havings

/-- The literals of the clauses that decide how many rows a plan has, apart from its pages. -/
def Plan.countLiterals (d : Dialect) (p : Plan) : List Value :=
  if p.needsDerivedCount then p.tableLiterals d else joinLiterals d p.joins ++ predicateLiterals d p.filters

section Rendered

@[simp] theorem params_append (xs ys : List Token) : Token.params (xs ++ ys) = Token.params xs ++ Token.params ys :=
  List.filterMap_append

@[simp] theorem params_nil : Token.params [] = [] := rfl

@[simp] theorem params_space (ts : List Token) : Token.params (.space :: ts) = Token.params ts := rfl

@[simp] theorem params_word (s : String) (ts : List Token) : Token.params (.word s :: ts) = Token.params ts := rfl

@[simp] theorem params_symbol (s : String) (ts : List Token) : Token.params (.symbol s :: ts) = Token.params ts := rfl

@[simp] theorem params_identifier (name : String) (ts : List Token) :
    Token.params (.identifier name :: ts) = Token.params ts := rfl

@[simp] theorem params_value (v : Value) (ts : List Token) :
    Token.params (.value v :: ts) = (if v.isNull then [] else [v]) ++ Token.params ts := by
  cases null : v.isNull with
  | true => simp [Token.params, Token.param?, null]
  | false => simp [Token.params, Token.param?, null]

@[simp] theorem params_wordBetween (word : String) : Token.params (wordBetween word) = [] := rfl

@[simp] theorem params_comma : Token.params comma = [] := rfl

@[simp] theorem params_words (keywords : List String) : Token.params (words keywords) = [] := by
  induction keywords with
  | nil => rfl
  | cons s rest ih => exact ih

@[simp] theorem params_parenthesized (inner : List Token) :
    Token.params (parenthesized inner) = Token.params inner := by
  change Token.params (inner ++ [.symbol ")"]) = _
  rw [params_append]
  exact List.append_nil _

theorem params_joined {separator : List Token} (none : Token.params separator = []) (items : List (List Token)) :
    Token.params (joined separator items) = items.flatMap Token.params := by
  induction items with
  | nil => rfl
  | cons first rest ih =>
    cases rest with
    | nil => rw [joined_singleton, List.flatMap_singleton]
    | cons second rest =>
      rw [joined_cons_cons, params_append, params_append, none, ih, List.nil_append]
      rfl

theorem params_clauseTokens (keywords : List String) {separator : List Token} (none : Token.params separator = [])
    (items : List (List Token)) :
    Token.params (clauseTokens keywords separator items) = items.flatMap Token.params := by
  unfold clauseTokens
  cases items with
  | nil => rfl
  | cons first rest =>
    simp only [List.isEmpty_cons, Bool.false_eq_true, if_false, params_append, params_words, params_joined none]
    rfl

theorem params_aliasedColumns (aliased : Bool) (start : Nat) (columns : List (List Token)) :
    (aliasedColumns aliased start columns).flatMap Token.params = columns.flatMap Token.params := by
  induction columns generalizing start with
  | nil => rfl
  | cons column rest ih =>
    have own : Token.params (if aliased then column ++ wordBetween "AS" ++ [.identifier s!"c{start}"] else column) =
        Token.params column := by
      cases aliased with
      | false => rfl
      | true => simp [wordBetween, Token.params, Token.param?]
    rw [aliasedColumns, List.flatMap_cons, List.flatMap_cons, own, ih]

theorem params_columns (a : Alias) : a.columns.flatMap Token.params = [] := by
  refine List.flatMap_eq_nil_iff.mpr fun column member => ?_
  obtain ⟨name, _, rfl⟩ := List.mem_map.mp member
  rfl

@[simp] theorem params_sourceTokens (sources : List Alias) : Token.params (sourceTokens sources) = [] := by
  rw [sourceTokens, params_joined (by simp)]
  refine List.flatMap_eq_nil_iff.mpr fun source member => ?_
  obtain ⟨a, _, rfl⟩ := List.mem_map.mp member
  rfl

@[simp] theorem params_generatedJoins (joins : List GeneratedJoin) :
    Token.params (joins.flatMap GeneratedJoin.tokens) = [] := by
  induction joins with
  | nil => rfl
  | cons j rest ih =>
    have own : Token.params j.tokens = [] := by
      simp only [GeneratedJoin.tokens, params_append, params_words]
      rfl
    rw [List.flatMap_cons, params_append, own, ih, List.nil_append]

/-- An ordered term is repeated where the dialect has no words for the place of nulls. -/
theorem params_orderingTokens (d : Dialect) (term : List Token) (direction : Direction) (nulls : Option NullPlacement) :
    (orderingTokens d term direction nulls).flatMap Token.params =
      if repeatsKey d nulls then Token.params term ++ Token.params term else Token.params term := by
  unfold orderingTokens repeatsKey
  cases nulls with
  | none => simp
  | some placement =>
    cases d.ordersNulls with
    | true => simp
    | false => cases placement <;> simp

theorem params_pagingTokens (d : Dialect) (limit offset : Option Nat) :
    Token.params (pagingTokens d limit offset) = limit.toList.map boundValue ++ offset.toList.map boundValue := by
  have bound (keywords : List String) (n : Nat) : Token.params (boundTokens keywords n) = [boundValue n] := by
    rw [boundTokens, params_append, params_words]
    rfl
  have optional (keyword : String) (n : Option Nat) :
      Token.params (n.elim [] (boundTokens [keyword])) = n.toList.map boundValue := by
    cases n with
    | none => rfl
    | some n => exact bound [keyword] n
  unfold pagingTokens
  split
  · exact bound _ _
  · exact bound _ _
  · rw [params_append, optional, optional]

/-- The association that a join follows relates columns, so its condition has all of its literals. -/
theorem params_joinTokens (d : Dialect) (kind : JoinKind) (target : Alias) (link : Option (String × Association))
    (condition : Option Condition) :
    Token.params (JoinClause.tokens d ⟨kind, target, link, condition⟩) =
      (conditionOfJoin d condition).flatMap Token.params := by
  unfold JoinClause.tokens
  dsimp only
  split
  case isTrue empty =>
    have nothing := List.isEmpty_iff.mp empty
    have own : conditionOfJoin d condition = [] := (List.append_eq_nil_iff.mp nothing).2
    rw [own]
    simp [tableTokens]
  case isFalse =>
    rw [params_append, params_joined rfl, List.flatMap_append]
    cases link with
    | none => simp [tableTokens]
    | some link => simp [tableTokens, linkTokens, columnTokens]

theorem params_not (d : Dialect) (c : Condition) :
    Token.params ((Condition.not c).tokens d) = Token.params (c.tokens d) := by
  cases c with
  | and items => rfl
  | or items => rfl
  | _ => exact params_parenthesized _

/-- A query has the parameters of its clauses in their order. -/
theorem params_selectTokens (d : Dialect) (aliased : Bool) (s : Select) :
    Token.params (s.tokens d aliased) =
      (outputColumns d s.outputs).flatMap Token.params ++ Token.params (joinTokens d s.joins) ++
        (conditionTokens d s.filters).flatMap Token.params ++ (termTokens d s.groups).flatMap Token.params ++
        (conditionTokens d s.havings).flatMap Token.params ++ (sortTokens d s.orderings).flatMap Token.params ++
        s.limit.toList.map boundValue ++ s.offset.toList.map boundValue := by
  cases s with
  | mk distinct outputs fetches sources joins generated filters groups havings orderings limit offset =>
    have fetched : (fetches.flatMap (·.target.columns)).flatMap Token.params = [] := by
      refine List.flatMap_eq_nil_iff.mpr fun column member => ?_
      obtain ⟨f, _, inside⟩ := List.mem_flatMap.mp member
      exact List.flatMap_eq_nil_iff.mp (params_columns f.target) column inside
    have columns : Token.params (
        if (outputColumns d outputs ++ fetches.flatMap (·.target.columns)).isEmpty then [.word "1"]
        else joined comma (aliasedColumns aliased 0 (outputColumns d outputs ++ fetches.flatMap (·.target.columns)))) =
        (outputColumns d outputs).flatMap Token.params := by
      split
      case isTrue empty =>
        rw [(List.append_eq_nil_iff.mp (List.isEmpty_iff.mp empty)).1]
        rfl
      case isFalse =>
        rw [params_joined rfl, params_aliasedColumns, List.flatMap_append, fetched, List.append_nil]
    have filtered := params_clauseTokens ["WHERE"] (params_wordBetween "AND") (conditionTokens d filters)
    have grouped := params_clauseTokens ["GROUP", "BY"] params_comma (termTokens d groups)
    have restricted := params_clauseTokens ["HAVING"] (params_wordBetween "AND") (conditionTokens d havings)
    have ordered := params_clauseTokens ["ORDER", "BY"] params_comma (sortTokens d orderings)
    unfold Select.tokens
    simp only [params_append, params_words, columns, params_generatedJoins, params_sourceTokens, filtered, grouped,
      restricted, ordered, params_pagingTokens]
    cases distinct <;> simp

end Rendered

section Resolved

variable {registry : Registry} (d : Dialect)

mutual

theorem params_term : ∀ (e : Expr) (scopes : List Scope) (clause : Clause) (t : Term),
    Term.ofExpr registry scopes clause e = .ok t → Token.params (t.tokens d) = e.literals d
  | .path p, _, _, _, run => by
    obtain ⟨owner, _, run⟩ := Except.bind_eq_ok.mp run
    cases run
    rfl
  | .literal v, _, _, _, run => by
    cases run
    simp [Term.tokens, Expr.literals]
  | .aggregate f argument distinct, scopes, clause, _, run => by
    unfold Term.ofExpr at run
    split at run
    · cases run
    · split at run
      · cases run
      · obtain ⟨t, resolved, run⟩ := Except.bind_eq_ok.mp run
        cases run
        have inner := params_term argument scopes clause t resolved
        rw [Term.tokens, Expr.literals, ← inner]
        cases distinct <;> simp
  | .subquery plan, scopes, clause, _, run => by
    obtain ⟨s, resolved, run⟩ := Except.bind_eq_ok.mp run
    cases run
    have inner := params_select plan scopes .values s false resolved
    rw [Term.tokens, params_parenthesized, inner, Expr.literals]
    rfl
termination_by structural e => e

theorem params_condition : ∀ (p : Predicate) (scopes : List Scope) (clause : Clause) (c : Condition),
    Condition.ofPredicate registry scopes clause p = .ok c → Token.params (c.tokens d) = p.literals d
  | .compare left op right, scopes, clause, _, run => by
    obtain ⟨l, onLeft, run⟩ := Except.bind_eq_ok.mp run
    obtain ⟨r, onRight, run⟩ := Except.bind_eq_ok.mp run
    cases run
    have first := params_term left scopes clause l onLeft
    have second := params_term right scopes clause r onRight
    simp [Condition.tokens, Predicate.literals, first, second]
  | .between expr low high, scopes, clause, _, run => by
    obtain ⟨e, atExpr, run⟩ := Except.bind_eq_ok.mp run
    obtain ⟨l, atLow, run⟩ := Except.bind_eq_ok.mp run
    obtain ⟨h, atHigh, run⟩ := Except.bind_eq_ok.mp run
    cases run
    have first := params_term expr scopes clause e atExpr
    have second := params_term low scopes clause l atLow
    have third := params_term high scopes clause h atHigh
    simp [Condition.tokens, Predicate.literals, first, second, third]
  | .inValues expr values negated, scopes, clause, _, run => by
    unfold Condition.ofPredicate at run
    unfold Predicate.literals
    split at run
    case isTrue empty =>
      cases run
      rw [if_pos empty]
      rfl
    case isFalse filled =>
      obtain ⟨e, atExpr, run⟩ := Except.bind_eq_ok.mp run
      obtain ⟨vs, atValues, run⟩ := Except.bind_eq_ok.mp run
      cases run
      have first := params_term expr scopes clause e atExpr
      have others := params_terms values scopes clause vs atValues
      rw [if_neg filled, ← first, ← others, Condition.tokens, params_append, params_parenthesized, params_joined rfl]
      simp
  | .inPlan expr plan negated, scopes, clause, _, run => by
    obtain ⟨e, atExpr, run⟩ := Except.bind_eq_ok.mp run
    obtain ⟨s, atPlan, run⟩ := Except.bind_eq_ok.mp run
    cases run
    have first := params_term expr scopes clause e atExpr
    have second := params_select plan scopes .values s false atPlan
    simp [Condition.tokens, Predicate.literals, first, second]
  | .isNull expr negated, scopes, clause, _, run => by
    obtain ⟨e, atExpr, run⟩ := Except.bind_eq_ok.mp run
    cases run
    have first := params_term expr scopes clause e atExpr
    simp [Condition.tokens, Predicate.literals, first]
  | .exists plan negated, scopes, clause, _, run => by
    obtain ⟨s, atPlan, run⟩ := Except.bind_eq_ok.mp run
    cases run
    have inner := params_select plan scopes .existence s false atPlan
    rw [Condition.tokens, Predicate.literals]
    cases negated <;> simp [inner]
  | .and items, scopes, clause, _, run => by
    obtain ⟨cs, atItems, run⟩ := Except.bind_eq_ok.mp run
    cases run
    have inner := params_conditions items scopes clause cs atItems
    rw [Condition.tokens, params_parenthesized, params_joined rfl, inner, Predicate.literals]
  | .or items, scopes, clause, _, run => by
    obtain ⟨cs, atItems, run⟩ := Except.bind_eq_ok.mp run
    cases run
    have inner := params_conditions items scopes clause cs atItems
    rw [Condition.tokens, params_parenthesized, params_joined rfl, inner, Predicate.literals]
  | .not inner, scopes, clause, _, run => by
    obtain ⟨c, resolved, run⟩ := Except.bind_eq_ok.mp run
    cases run
    have own := params_condition inner scopes clause c resolved
    rw [Predicate.literals, ← own, params_not]
termination_by structural p => p

theorem params_output : ∀ (p : Projection) (scopes : List Scope) (o : Output),
    Output.ofProjection registry scopes p = .ok o → (o.columns d).flatMap Token.params = p.literals d
  | .expr e, scopes, _, run => by
    obtain ⟨t, resolved, run⟩ := Except.bind_eq_ok.mp run
    cases run
    have own := params_term e scopes .select t resolved
    simp [Output.columns, Projection.literals, own]
  | .entity a, _, _, run => by
    cases run
    exact params_columns a
termination_by structural p => p

theorem params_joinClause : ∀ (j : Join) (scopes : List Scope) (c : JoinClause),
    JoinClause.ofJoin registry scopes j = .ok c → Token.params (c.tokens d) = j.literals d
  | ⟨kind, target, association, condition, fetch⟩, scopes, _, run => by
    obtain ⟨c, resolved, run⟩ := Except.bind_eq_ok.mp run
    cases run
    have own := params_conditionOfJoin condition scopes c resolved
    rw [params_joinTokens, own, Join.literals]
termination_by structural j => j

theorem params_sortKey : ∀ (o : SortItem) (scopes : List Scope) (k : SortKey),
    SortKey.ofItem registry scopes o = .ok k → (k.tokens d).flatMap Token.params = o.literals d
  | ⟨expr, direction, nulls⟩, scopes, _, run => by
    obtain ⟨t, resolved, run⟩ := Except.bind_eq_ok.mp run
    cases run
    have own := params_term expr scopes .orderBy t resolved
    rw [SortKey.tokens, params_orderingTokens, own, SortItem.literals]
termination_by structural o => o

theorem params_select : ∀ (p : Plan) (outer : List Scope) (role : Role) (s : Select) (aliased : Bool),
    Select.ofPlan registry outer role p = .ok s →
      Token.params (s.tokens d aliased) = if role = .counted then p.tableLiterals d else p.literals d
  | ⟨projections, sources, joins, filters, groups, havings, orderings, offset, limit, distinct⟩, outer, role, s,
      aliased, run => by
    obtain ⟨scope, _, run⟩ := Except.bind_eq_ok.mp run
    obtain ⟨_, _, run⟩ := Except.bind_eq_ok.mp run
    obtain ⟨_, _, run⟩ := Except.bind_eq_ok.mp run
    obtain ⟨outputs, atProjections, run⟩ := Except.bind_eq_ok.mp run
    obtain ⟨fetches, _, run⟩ := Except.bind_eq_ok.mp run
    obtain ⟨clauses, atJoins, run⟩ := Except.bind_eq_ok.mp run
    obtain ⟨conditions, atFilters, run⟩ := Except.bind_eq_ok.mp run
    obtain ⟨terms, atGroups, run⟩ := Except.bind_eq_ok.mp run
    obtain ⟨restrictions, atHavings, run⟩ := Except.bind_eq_ok.mp run
    have columns := params_outputs projections (scope :: outer) outputs atProjections
    have joined := params_joins joins (scope :: outer) clauses atJoins
    have filtered := params_conditions filters (scope :: outer) .filter conditions atFilters
    have grouped := params_terms groups (scope :: outer) .groupBy terms atGroups
    have restricted := params_conditions havings (scope :: outer) .having restrictions atHavings
    split at run
    case isTrue counted =>
      cases run
      rw [if_pos counted, params_selectTokens, columns, joined, filtered, grouped, restricted]
      simp [sortTokens, Plan.tableLiterals]
    case isFalse rows =>
      obtain ⟨keys, atOrderings, run⟩ := Except.bind_eq_ok.mp run
      cases run
      have ordered := params_sortKeys orderings (scope :: outer) keys atOrderings
      rw [if_neg rows, params_selectTokens, columns, joined, filtered, grouped, restricted, ordered, Plan.literals]
termination_by structural p => p

theorem params_conditionOfJoin : ∀ (p : Option Predicate) (scopes : List Scope) (c : Option Condition),
    conditionOfOption registry scopes p = .ok c → (conditionOfJoin d c).flatMap Token.params = conditionLiterals d p
  | none, _, _, run => by
    cases run
    rfl
  | some p, scopes, _, run => by
    obtain ⟨c, resolved, run⟩ := Except.bind_eq_ok.mp run
    cases run
    have own := params_condition p scopes .join c resolved
    simp [conditionOfJoin, conditionLiterals, own]
termination_by structural p => p

theorem params_terms : ∀ (es : List Expr) (scopes : List Scope) (clause : Clause) (ts : List Term),
    termsOfExprs registry scopes clause es = .ok ts → (termTokens d ts).flatMap Token.params = exprLiterals d es
  | [], _, _, _, run => by
    cases run
    rfl
  | e :: rest, scopes, clause, _, run => by
    obtain ⟨t, resolved, run⟩ := Except.bind_eq_ok.mp run
    obtain ⟨ts, others, run⟩ := Except.bind_eq_ok.mp run
    cases run
    have own := params_term e scopes clause t resolved
    have more := params_terms rest scopes clause ts others
    rw [termTokens, List.flatMap_cons, own, more, exprLiterals]
termination_by structural es => es

theorem params_conditions : ∀ (ps : List Predicate) (scopes : List Scope) (clause : Clause) (cs : List Condition),
    conditionsOfPredicates registry scopes clause ps = .ok cs →
      (conditionTokens d cs).flatMap Token.params = predicateLiterals d ps
  | [], _, _, _, run => by
    cases run
    rfl
  | p :: rest, scopes, clause, _, run => by
    obtain ⟨c, resolved, run⟩ := Except.bind_eq_ok.mp run
    obtain ⟨cs, others, run⟩ := Except.bind_eq_ok.mp run
    cases run
    have own := params_condition p scopes clause c resolved
    have more := params_conditions rest scopes clause cs others
    rw [conditionTokens, List.flatMap_cons, own, more, predicateLiterals]
termination_by structural ps => ps

theorem params_outputs : ∀ (ps : List Projection) (scopes : List Scope) (os : List Output),
    outputsOfProjections registry scopes ps = .ok os →
      (outputColumns d os).flatMap Token.params = projectionLiterals d ps
  | [], _, _, run => by
    cases run
    rfl
  | p :: rest, scopes, _, run => by
    obtain ⟨o, resolved, run⟩ := Except.bind_eq_ok.mp run
    obtain ⟨os, others, run⟩ := Except.bind_eq_ok.mp run
    cases run
    have own := params_output p scopes o resolved
    have more := params_outputs rest scopes os others
    rw [outputColumns, List.flatMap_append, own, more, projectionLiterals]
termination_by structural ps => ps

theorem params_joins : ∀ (js : List Join) (scopes : List Scope) (cs : List JoinClause),
    clausesOfJoins registry scopes js = .ok cs → Token.params (joinTokens d cs) = joinLiterals d js
  | [], _, _, run => by
    cases run
    rfl
  | j :: rest, scopes, _, run => by
    obtain ⟨c, resolved, run⟩ := Except.bind_eq_ok.mp run
    obtain ⟨cs, others, run⟩ := Except.bind_eq_ok.mp run
    cases run
    have own := params_joinClause j scopes c resolved
    have more := params_joins rest scopes cs others
    rw [joinTokens, params_append, own, more, joinLiterals]
termination_by structural js => js

theorem params_sortKeys : ∀ (os : List SortItem) (scopes : List Scope) (ks : List SortKey),
    keysOfItems registry scopes os = .ok ks → (sortTokens d ks).flatMap Token.params = sortLiterals d os
  | [], _, _, run => by
    cases run
    rfl
  | o :: rest, scopes, _, run => by
    obtain ⟨k, resolved, run⟩ := Except.bind_eq_ok.mp run
    obtain ⟨ks, others, run⟩ := Except.bind_eq_ok.mp run
    cases run
    have own := params_sortKey o scopes k resolved
    have more := params_sortKeys rest scopes ks others
    rw [sortTokens, List.flatMap_append, own, more, sortLiterals]
termination_by structural os => os

end

theorem params_count {p : Plan} {q : CountQuery} (run : p.resolveCount registry = .ok q) :
    Token.params (q.tokens d) = p.countLiterals d := by
  unfold Plan.resolveCount at run
  unfold Plan.countLiterals
  split at run
  case isTrue derived =>
    obtain ⟨s, resolved, run⟩ := Except.bind_eq_ok.mp run
    cases run
    have table := params_select d p [] .counted s true resolved
    rw [if_pos derived, CountQuery.tokens]
    simp [countWord, table]
  case isFalse plain =>
    obtain ⟨s, counted, run⟩ := Except.bind_eq_ok.mp run
    cases run
    obtain ⟨scope, _, run⟩ := Except.bind_eq_ok.mp counted
    obtain ⟨_, _, run⟩ := Except.bind_eq_ok.mp run
    obtain ⟨_, _, run⟩ := Except.bind_eq_ok.mp run
    obtain ⟨clauses, atJoins, run⟩ := Except.bind_eq_ok.mp run
    obtain ⟨conditions, atFilters, run⟩ := Except.bind_eq_ok.mp run
    cases run
    have joined := params_joins d p.joins [scope] clauses atJoins
    have filtered := params_conditions d p.filters [scope] .filter conditions atFilters
    have restricted := params_clauseTokens ["WHERE"] (params_wordBetween "AND") (conditionTokens d conditions)
    rw [if_neg plain, CountQuery.tokens, Select.fromTokens, Select.whereTokens, params_append, restricted, filtered]
    simp [countWord, joined]

end Resolved

/-- The values that are given to columns. Null is written into the text of a statement. -/
def Assignments.literals (assignments : Assignments) : List Value := (assignments.map (·.2)).filter (!·.isNull)

theorem Assignments.literals_append (xs ys : Assignments) : literals (xs ++ ys) = literals xs ++ literals ys := by
  rw [literals, List.map_append, List.filter_append]
  rfl

theorem params_assigned {f : String × Value → List Token}
    (one : ∀ assignment, Token.params (f assignment) = Assignments.literals [assignment]) (assignments : Assignments) :
    (assignments.map f).flatMap Token.params = assignments.literals := by
  induction assignments with
  | nil => rfl
  | cons assignment rest ih =>
    rw [List.map_cons, List.flatMap_cons, one, ih, ← Assignments.literals_append]
    rfl

theorem params_assignment (column : String) (value : Value) :
    Token.params (assignmentTokens column value) = Assignments.literals [(column, value)] := by
  cases null : value.isNull with
  | true => simp [assignmentTokens, Assignments.literals, null]
  | false => simp [assignmentTokens, Assignments.literals, null]

theorem params_insert (d : Dialect) (e : Entity) (assignments : Assignments) (returning : Bool) :
    Token.params (insertTokens d e assignments returning) = assignments.literals := by
  have key : Token.params (if returning && d.returnsKeys then
      words ["RETURNING"] ++ [.space, .identifier e.primaryKey.column] else []) = [] := by
    split <;> rfl
  have columns : (assignments.map fun assignment => [Token.identifier assignment.1]).flatMap Token.params = [] :=
    List.flatMap_eq_nil_iff.mpr (List.forall_mem_map.mpr fun _ _ => rfl)
  have values := params_assigned (f := fun assignment => [.value assignment.2])
    (fun assignment => params_assignment assignment.1 assignment.2) assignments
  unfold insertTokens
  rw [params_append, params_append, key, List.append_nil]
  split
  · split <;> rfl
  · simp only [params_append, params_words, params_wordBetween, params_parenthesized, params_joined params_comma,
      columns, values]
    rfl

theorem params_update (e : Entity) (assignments : Assignments) (id : Value) :
    Token.params (updateTokens e assignments id) =
      Assignments.literals (assignments ++ [(e.primaryKey.column, id)]) := by
  unfold updateTokens
  simp only [params_append, params_words, params_joined params_comma, params_assignment, Assignments.literals_append]
  rw [params_assigned fun assignment => params_assignment assignment.1 assignment.2]
  simp

/-- Placeholders and parameters line up in every statement, and the parameters are the literals of what was compiled
in the order of its text. A count has those of the clauses that it keeps, which leave out the order and the page. -/
theorem statements_aligned (registry : Registry) (d : Dialect) :
    (∀ p query, compile registry d p = .ok query → query.statement.Aligned d (p.literals d)) ∧
      (∀ p s, compileCount registry d p = .ok s → s.Aligned d (p.countLiterals d)) ∧
      (∀ e assignments returning, (compileInsert d e assignments returning).Aligned d assignments.literals) ∧
      ∀ e assignments id s, compileUpdate d e assignments id = .ok s →
        s.Aligned d (Assignments.literals (assignments ++ [(e.primaryKey.column, id)])) := by
  refine ⟨?_, ?_, ?_, ?_⟩
  · intro p query run
    obtain ⟨s, resolved, run⟩ := Except.bind_eq_ok.mp run
    cases run
    have params := params_select d p [] .rows s false resolved
    rw [if_neg (by decide)] at params
    exact params ▸ Statement.aligned_ofTokens d ((clean_select d s false).weaken false)
  · intro p s run
    obtain ⟨q, resolved, run⟩ := Except.bind_eq_ok.mp run
    cases run
    exact params_count d resolved ▸ Statement.aligned_ofTokens d (clean_count d q)
  · intro e assignments returning
    rw [← params_insert d e assignments returning]
    exact Statement.aligned_ofTokens d (clean_insert d e assignments returning)
  · intro e assignments id s run
    unfold compileUpdate at run
    split at run
    · cases run
    · cases run
      exact params_update e assignments id ▸ Statement.aligned_ofTokens d (clean_update e assignments id)

def accountEntity : Entity :=
  ⟨"account", "accounts", [⟨"id", "id", .integer⟩, ⟨"owner", "owner_name", .text⟩], ⟨0, by decide⟩, []⟩

def ownerOf (account : String) : Expr := .path ⟨account, "account", [], "owner", "owner_name", .text⟩

/-- A page of owners, with a page inside of a condition, an empty list, a null and two places of nulls. -/
def ownersPage : Plan where
  projections := [.expr (ownerOf "a")]
  sources := [⟨"a", accountEntity⟩]
  joins := []
  filters := [
    .inPlan (ownerOf "a") ⟨[.expr (ownerOf "b")], [⟨"b", accountEntity⟩], [],
      [.compare (ownerOf "b") .ne (.literal (.text "kim"))], [], [], [], none, some 2, false⟩ false,
    .or [.inValues (.literal (.int 4)) [] true, .compare (ownerOf "a") .ne (.literal .null)]]
  groups := []
  havings := []
  orderings := [⟨ownerOf "a", .ascending, some .last⟩, ⟨.literal (.text "x"), .descending, some .first⟩]
  offset := some 3
  limit := some 5
  distinct := false

theorem statements_aligned_ownersPage :
    (∃ query, compile ⟨[accountEntity]⟩ .mysql ownersPage = .ok query ∧
      query.statement.Aligned .mysql [.text "kim", .int 2, .text "x", .text "x", .int 5, .int 3]) ∧
      (∃ s, compileCount ⟨[accountEntity]⟩ .mysql ownersPage = .ok s ∧ s.Aligned .mysql [.text "kim", .int 2]) ∧
      (compileInsert .mysql accountEntity [("owner_name", .null)] false).Aligned .mysql [] ∧
      ∃ s, compileUpdate .mysql accountEntity [("owner_name", .text "ann")] (.int 7) = .ok s ∧
        s.Aligned .mysql [.text "ann", .int 7] := by
  obtain ⟨query, count, insert, update⟩ := statements_aligned ⟨[accountEntity]⟩ .mysql
  refine ⟨⟨_, rfl, query ownersPage _ rfl⟩, ⟨_, rfl, count ownersPage _ rfl⟩, ?_, _, rfl, ?_⟩
  · exact insert accountEntity [("owner_name", .null)] false
  · exact update accountEntity [("owner_name", .text "ann")] (.int 7) _ rfl

/-- A page is no part of a count, so the literals of a plan are not all in it. -/
theorem count_leaves_page :
    ∃ s, compileCount ⟨[accountEntity]⟩ .mysql ownersPage = .ok s ∧
      ¬s.Aligned .mysql (ownersPage.literals .mysql) := by
  refine ⟨_, rfl, fun aligned => ?_⟩
  have short : [Value.text "kim", .int 2] = ownersPage.literals .mysql :=
    (Statement.aligned_ofTokens .mysql (clean_count .mysql _)).params.symm.trans aligned.params
  cases short

end EntityMapper
