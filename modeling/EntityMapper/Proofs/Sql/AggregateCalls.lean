import EntityMapper.Compile.Check
import EntityMapper.Proofs.Sql.Conditions
import EntityMapper.Proofs.Sql.Inclusion

namespace EntityMapper

/-- Where in a statement something stands: in which clause of the query around it, if in one, and whether in the argument
of an aggregate. -/
structure Spot where
  clause : Option Clause
  inArgument : Bool
  deriving DecidableEq, Repr

namespace Spot

def of (clause : Clause) : Spot := ⟨some clause, false⟩

def argument (s : Spot) : Spot := ⟨s.clause, true⟩

/-- An aggregate may be called in the select list, in the conditions on groups and in the order of a query, and not in
the argument of another one. -/
def Allows (s : Spot) : Prop :=
  (s.clause = some .select ∨ s.clause = some .having ∨ s.clause = some .orderBy) ∧ s.inArgument = false

end Spot

structure AggregateCall where
  function : AggregateFunction
  spot : Spot
  deriving DecidableEq, Repr

/-- The words that begin a part of a query, with the clause that the part is. The tables and the page of a query are in
none. -/
def clauseWords : List (String × Option Clause) :=
  [("SELECT", some .select), ("FROM", none), ("JOIN", none), ("ON", some .join), ("WHERE", some .filter),
    ("GROUP", some .groupBy), ("HAVING", some .having), ("ORDER", some .orderBy), ("LIMIT", none), ("OFFSET", none)]

namespace Lexeme

/-- The aggregate that a word names. -/
def function? : Lexeme → Option AggregateFunction
  | word s => [.count, .avg, .max, .min, .sum].find? fun f : AggregateFunction => f.keyword == s
  | _ => none

/-- The clause, if any, of the part of a query that a word begins. -/
def begins? : Lexeme → Option (Option Clause)
  | word s => clauseWords.lookup s
  | _ => none

end Lexeme

/-- Where one stands behind a lexeme. -/
def Spot.behind (s : Spot) (l : Lexeme) : Spot := l.begins?.elim s (⟨·, false⟩)

/-- A reader of lexemes: where it stands, where each parenthesis stands that is still open, and the aggregate that was
named last. -/
structure Cursor where
  spot : Spot
  opened : List Spot
  named : Option AggregateFunction
  deriving DecidableEq, Repr

namespace Cursor

/-- A clause goes on until another one begins or the parentheses around it end. Parentheses behind the name of an
aggregate hold its argument, until a query begins in them. -/
def read (c : Cursor) (l : Lexeme) : Cursor :=
  if l = .opening then ⟨if c.named.isSome then c.spot.argument else c.spot, c.spot :: c.opened, none⟩
  else if l = .closing then ⟨c.opened.headD c.spot, c.opened.tail, none⟩
  else ⟨c.spot.behind l, c.opened, l.function?⟩

/-- The aggregates that a text names, with where each is called. -/
def calls : Cursor → List Lexeme → List AggregateCall
  | _, [] => []
  | c, l :: rest => (l.function?.map (⟨·, c.spot⟩)).toList ++ (c.read l).calls rest

theorem calls_append (c : Cursor) (ls ms : List Lexeme) :
    c.calls (ls ++ ms) = c.calls ls ++ (ls.foldl read c).calls ms := by
  induction ls generalizing c with
  | nil => rfl
  | cons l rest ih => rw [List.cons_append, calls, calls, ih, List.foldl_cons, List.append_assoc]

end Cursor

/-- The aggregates that are called in a statement. -/
def Dialect.aggregateCalls (d : Dialect) (sql : String) : List AggregateCall :=
  Cursor.calls ⟨⟨none, false⟩, [], none⟩ (d.lexemes sql.toList)

/-- The aggregates of a filter and of an argument are told from those of a query inside of them. -/
example : Dialect.ansi.aggregateCalls "SELECT MAX(SUM(a)) FROM t WHERE MIN(a) = (SELECT AVG(a) FROM t)" =
    [⟨.max, .of .select⟩, ⟨.sum, (Spot.of .select).argument⟩, ⟨.min, .of .filter⟩, ⟨.avg, .of .select⟩] := by
  decide +kernel

/-- Reading the lexemes leads from one spot to another, whatever parentheses are open, and no aggregate is called on the
way where it may not be. -/
structure Walks (here : Spot) (ls : List Lexeme) (there : Spot) : Prop where
  ends : ∀ opened, ls.foldl Cursor.read ⟨here, opened, none⟩ = ⟨there, opened, none⟩
  calls : ∀ opened, ∀ call ∈ Cursor.calls ⟨here, opened, none⟩ ls, call.spot.Allows

/-- The lexeme begins no clause, names no aggregate and is no parenthesis. -/
def Lexeme.isQuiet (l : Lexeme) : Bool := !l.isBracket && l.function?.isNone && l.begins?.isNone

namespace Walks

variable {here middle there : Spot} {ls ms : List Lexeme} {l : Lexeme}

theorem nil : Walks here [] here := ⟨fun _ => rfl, fun _ _ none => absurd none List.not_mem_nil⟩

theorem append (first : Walks here ls middle) (second : Walks middle ms there) : Walks here (ls ++ ms) there := by
  constructor
  · intro opened
    rw [List.foldl_append, first.ends, second.ends]
  · intro opened
    rw [Cursor.calls_append, first.ends, List.forall_mem_append]
    exact ⟨first.calls opened, second.calls opened⟩

theorem lexeme (flat : l.isBracket = false) (unnamed : l.function? = none) : Walks here [l] (here.behind l) := by
  rw [Lexeme.isBracket, Bool.or_eq_false_iff, beq_eq_false_iff_ne, beq_eq_false_iff_ne] at flat
  constructor
  · intro opened
    rw [List.foldl_cons, Cursor.read, if_neg flat.1, if_neg flat.2, unnamed]
    rfl
  · intro opened call member
    rw [Cursor.calls, unnamed] at member
    cases member

theorem quiet (kinds : ls.all Lexeme.isQuiet = true) : Walks here ls here := by
  induction ls with
  | nil => exact .nil
  | cons l rest ih =>
    rw [List.all_cons, Bool.and_eq_true] at kinds
    obtain ⟨own, others⟩ := kinds
    simp only [Lexeme.isQuiet, Bool.and_eq_true, Bool.not_eq_true', Option.isNone_iff_eq_none] at own
    have walk : Walks here [l] (here.behind l) := .lexeme own.1.1 own.1.2
    rw [Spot.behind, own.2] at walk
    exact walk.append (ih others)

/-- Behind its closing parenthesis, a reader stands where it stood before the opening one. -/
theorem read_enclosed (named : Option AggregateFunction)
    (inner : Walks (if named.isSome then here.argument else here) ls there) (opened : List Spot) :
    (enclosed ls).foldl Cursor.read ⟨here, opened, named⟩ = ⟨here, opened, none⟩ ∧
      ∀ call ∈ Cursor.calls ⟨here, opened, named⟩ (enclosed ls), call.spot.Allows := by
  have entered : Cursor.read ⟨here, opened, named⟩ .opening =
      ⟨if named.isSome then here.argument else here, here :: opened, none⟩ := rfl
  have left : Cursor.read ⟨there, here :: opened, none⟩ .closing = ⟨here, opened, none⟩ := rfl
  constructor
  · rw [enclosed, List.foldl_cons, entered, List.foldl_append, inner.ends, List.foldl_cons, left, List.foldl_nil]
  · have closing (c : Cursor) : c.calls [.closing] = [] := rfl
    rw [enclosed, Cursor.calls, entered, Cursor.calls_append, closing, List.append_nil]
    exact inner.calls _

theorem parenthesized (inner : Walks here ls there) : Walks here (enclosed ls) here :=
  ⟨fun opened => (read_enclosed none inner opened).1,
    fun opened => (read_enclosed none inner opened).2⟩

/-- An aggregate is called where it is allowed, with its argument in parentheses. -/
theorem call (f : AggregateFunction) (allowed : here.Allows) (inner : Walks here.argument ls there) :
    Walks here (.word f.keyword :: enclosed ls) here := by
  have own : (Lexeme.word f.keyword).function? = some f := by cases f <;> rfl
  have named (opened : List Spot) :
      Cursor.read ⟨here, opened, none⟩ (.word f.keyword) = ⟨here, opened, some f⟩ := by cases f <;> rfl
  constructor
  · intro opened
    rw [List.foldl_cons, named]
    exact (read_enclosed (some f) inner opened).1
  · intro opened
    rw [Cursor.calls, own, named]
    exact List.forall_mem_cons.mpr ⟨allowed, (read_enclosed (some f) inner opened).2⟩

end Walks

section Pieces

variable {here : Spot}

theorem Walks.joined {separator : List Token} {items : List (List Token)}
    (between : Walks here (lexemesOf separator) here) (walks : ∀ item ∈ items, Walks here (lexemesOf item) here) :
    Walks here (lexemesOf (joined separator items)) here := by
  induction items with
  | nil => exact .nil
  | cons first rest ih =>
    obtain ⟨own, others⟩ := List.forall_mem_cons.mp walks
    cases rest with
    | nil => rwa [joined_singleton]
    | cons second rest =>
      rw [joined_cons_cons, lexemesOf_append, lexemesOf_append]
      exact own.append (between.append (ih others))

/-- Words, none of which names an aggregate. -/
theorem Walks.words (keywords : List String) (unnamed : ∀ s ∈ keywords, (Lexeme.word s).function? = none) :
    Walks here (keywords.map .word) (keywords.foldl (fun spot s => spot.behind (.word s)) here) := by
  induction keywords generalizing here with
  | nil => exact .nil
  | cons s rest ih =>
    obtain ⟨own, others⟩ := List.forall_mem_cons.mp unnamed
    exact (Walks.lexeme rfl own).append (ih others)

/-- Wherever the tokens are read, no aggregate is called in them where it may not be. -/
def Crosses (ts : List Token) : Prop := ∀ here, ∃ there, Walks here (lexemesOf ts) there

theorem Crosses.nil : Crosses [] := fun _ => ⟨_, .nil⟩

theorem Crosses.append {ts us : List Token} (first : Crosses ts) (second : Crosses us) : Crosses (ts ++ us) := by
  intro here
  obtain ⟨middle, before⟩ := first here
  obtain ⟨there, after⟩ := second middle
  rw [lexemesOf_append]
  exact ⟨there, before.append after⟩

theorem composes_crosses : Composes Crosses := ⟨.nil, .append⟩

theorem crosses_words {keywords : List String} (unnamed : ∀ s ∈ keywords, (Lexeme.word s).function? = none) :
    Crosses (words keywords) := fun here => by
  rw [lexemesOf_words]
  exact ⟨_, .words keywords unnamed⟩

/-- Tokens behind the words of a part that begins its clause. -/
theorem crosses_part (keywords : List String) (clause : Option Clause) {ts : List Token}
    (opens : ∀ here, Walks here (keywords.map .word) ⟨clause, false⟩)
    (walks : ∃ there, Walks ⟨clause, false⟩ (lexemesOf ts) there) : Crosses (words keywords ++ [.space] ++ ts) := by
  intro here
  obtain ⟨there, walk⟩ := walks
  have start : lexemesOf (words keywords ++ [.space]) = keywords.map .word := by
    rw [lexemesOf_append, lexemesOf_words]
    exact List.append_nil _
  rw [lexemesOf_append, start]
  exact ⟨there, (opens here).append walk⟩

theorem crosses_clauseTokens (keywords : List String) (separator : List Token) {clause : Clause}
    {items : List (List Token)} (opens : ∀ here, Walks here (keywords.map .word) (.of clause))
    (between : (lexemesOf separator).all Lexeme.isQuiet = true)
    (walks : ∀ item ∈ items, Walks (.of clause) (lexemesOf item) (.of clause)) :
    Crosses (clauseTokens keywords separator items) := by
  unfold clauseTokens
  split
  · exact .nil
  · exact crosses_part keywords (some clause) opens ⟨_, .joined (.quiet between) walks⟩

theorem walks_columnTokens (owner column : String) : Walks here (lexemesOf (columnTokens owner column)) here :=
  .quiet rfl

theorem walks_tableTokens (table name : String) : Walks here (lexemesOf (tableTokens table name)) here := .quiet rfl

theorem walks_linkTokens (owner : String) (a : Association) (target : String) :
    Walks here (lexemesOf (linkTokens owner a target)) here := .quiet rfl

theorem walks_labelled (label : String) {column : List Token} (walks : Walks here (lexemesOf column) here) :
    Walks here (lexemesOf (column ++ wordBetween "AS" ++ [.identifier label])) here := by
  rw [List.append_assoc, lexemesOf_append]
  exact walks.append (.quiet rfl)

theorem crosses_on (keywords : List String) (opens : ∀ here, Walks here (keywords.map .word) ⟨none, false⟩)
    (table name : String) {items : List (List Token)}
    (walks : ∀ item ∈ items, Walks (.of .join) (lexemesOf item) (.of .join)) :
    Crosses (words keywords ++ [.space] ++ (tableTokens table name ++ wordBetween "ON" ++
      joined (wordBetween "AND") items)) := by
  refine crosses_part keywords none opens ⟨.of .join, ?_⟩
  rw [lexemesOf_append, lexemesOf_append]
  exact ((walks_tableTokens table name).append (.lexeme rfl rfl)).append (.joined (.quiet rfl) walks)

theorem crosses_generatedJoin (j : GeneratedJoin) : Crosses j.tokens := by
  have on := crosses_on ["INNER", "JOIN"] (fun _ => .words _ (by decide)) j.association.targetTable
    j.target.name (List.forall_mem_singleton.mpr (walks_linkTokens j.owner j.association j.target.name))
  rw [joined_singleton] at on
  unfold GeneratedJoin.tokens
  simpa only [List.append_assoc] using on

theorem crosses_from (sources : List Alias) {joins : List Token} (crosses : Crosses joins)
    (generated : List GeneratedJoin) :
    Crosses (words ["FROM"] ++ [.space] ++ sourceTokens sources ++ joins ++
      generated.flatMap GeneratedJoin.tokens) := by
  have start : Crosses (words ["FROM"] ++ [.space] ++ sourceTokens sources) := by
    refine crosses_part _ none (fun _ => .words _ (by decide)) ⟨_, .joined ?_ fun item member => ?_⟩
    · exact Walks.words ["CROSS", "JOIN"] (by decide)
    · obtain ⟨a, _, rfl⟩ := List.mem_map.mp member
      exact walks_tableTokens _ _
  exact (start.append crosses).append (composes_crosses.flatMap crosses_generatedJoin generated)

theorem walks_orderingTokens (d : Dialect) {term : List Token} (walk : Walks here (lexemesOf term) here)
    (direction : Direction) (nulls : Option NullPlacement) :
    ∀ key ∈ orderingTokens d term direction nulls, Walks here (lexemesOf key) here := by
  have behind {more : List Token} (kinds : (lexemesOf more).all Lexeme.isQuiet = true) :
      Walks here (lexemesOf (term ++ more)) here := by
    rw [lexemesOf_append]
    exact walk.append (.quiet kinds)
  have key : Walks here (lexemesOf (term ++ words [direction.keyword])) here := behind (by cases direction <;> rfl)
  unfold orderingTokens
  split
  · exact List.forall_mem_singleton.mpr key
  case h_2 placement =>
    split
    · refine List.forall_mem_singleton.mpr ?_
      rw [List.append_assoc]
      exact behind (by cases direction <;> cases placement <;> rfl)
    · split
      · refine List.forall_mem_cons.mpr ⟨?_, List.forall_mem_singleton.mpr key⟩
        rw [List.append_assoc]
        exact behind rfl
      · exact List.forall_mem_cons.mpr ⟨behind rfl, List.forall_mem_singleton.mpr key⟩

theorem crosses_pagingTokens (d : Dialect) (limit offset : Option Nat) : Crosses (pagingTokens d limit offset) := by
  have unnamed : ∀ keywords ∈ boundKeywords, ∀ s ∈ keywords, (Lexeme.word s).function? = none := by decide
  refine composes_crosses.paging (fun keywords known n => ?_) d limit offset
  exact (crosses_words (unnamed keywords known)).append fun _ => ⟨_, .quiet rfl⟩

end Pieces

/-- The aggregates of a term are called where that is allowed, if it is not called itself where it stands. Those of
subqueries are not among them. -/
def Term.Legal (here : Spot) : Term → Prop
  | .aggregate _ argument _ => here.Allows ∧ argument.Legal here.argument
  | .column .. | .literal _ | .subquery _ => True
termination_by structural t => t

namespace Select

/-- The aggregates in a query's own clauses are called where that is allowed. -/
structure LegalClauses (s : Select) : Prop where
  outputs : ∀ t ∈ s.outputs.filterMap (·.term?), t.Legal (.of .select)
  joins : ∀ t ∈ (s.joins.filterMap (·.condition)).flatMap Condition.terms, t.Legal (.of .join)
  filters : ∀ t ∈ s.filters.flatMap Condition.terms, t.Legal (.of .filter)
  groups : ∀ t ∈ s.groups, t.Legal (.of .groupBy)
  havings : ∀ t ∈ s.havings.flatMap Condition.terms, t.Legal (.of .having)
  orderings : ∀ t ∈ s.orderings.map (·.term), t.Legal (.of .orderBy)

/-- The aggregates of a query and of all queries in it are called where that is allowed. -/
inductive Legal : Select → Prop
  | intro {s : Select} (clauses : s.LegalClauses) (inner : ∀ u ∈ s.inner, Legal u) : Legal s

theorem Legal.clauses {s : Select} (legal : s.Legal) : s.LegalClauses := by
  cases legal
  assumption

theorem Legal.inner {s : Select} (legal : s.Legal) : ∀ u ∈ s.inner, u.Legal := by
  cases legal
  assumption

end Select

/-- Terms and queries whose aggregates are called where that is allowed. -/
structure LegalAt (here : Spot) (ts : List Term) (us : List Select) : Prop where
  terms : ∀ t ∈ ts, t.Legal here
  inner : ∀ u ∈ ts.filterMap Term.select? ++ us, u.Legal

namespace LegalAt

variable {here : Spot} {t : Term} {ts ts' : List Term} {us us' : List Select}

theorem append (legal : LegalAt here (ts ++ ts') (us ++ us')) : LegalAt here ts us ∧ LegalAt here ts' us' := by
  obtain ⟨terms, inner⟩ := legal
  rw [List.forall_mem_append] at terms
  simp only [List.filterMap_append, List.forall_mem_append] at inner
  obtain ⟨⟨first, second⟩, third, fourth⟩ := inner
  exact ⟨⟨terms.1, List.forall_mem_append.mpr ⟨first, third⟩⟩, terms.2, List.forall_mem_append.mpr ⟨second, fourth⟩⟩

/-- The queries of conditions are left to what follows a term. -/
theorem cons (legal : LegalAt here (t :: ts) us) : LegalAt here [t] [] ∧ LegalAt here ts us := by
  have parted : LegalAt here ([t] ++ ts) ([] ++ us) := legal
  exact parted.append

end LegalAt

namespace Select.Legal

variable {s : Select}

/-- What stands in the clauses of a legal query is legal there. -/
theorem part (legal : s.Legal) {here : Spot} {ts : List Term} {us : List Select} (own : ∀ t ∈ ts, t.Legal here)
    (among : ts ⊆ s.terms) (within : us ⊆ s.conditions.flatMap Condition.selects) : LegalAt here ts us := by
  refine ⟨own, fun u member => legal.inner u ?_⟩
  rcases List.mem_append.mp member with inTerm | sought
  · exact List.mem_append_left _ (List.filterMap_subset _ among inTerm)
  · exact List.mem_append_right _ (within sought)

theorem conditions (legal : s.Legal) {here : Spot} {cs : List Condition}
    (own : ∀ t ∈ cs.flatMap Condition.terms, t.Legal here) (among : cs ⊆ s.conditions) :
    LegalAt here (cs.flatMap Condition.terms) (cs.flatMap Condition.selects) := by
  have within {β : Type} (f : Condition → List β) : cs.flatMap f ⊆ s.conditions.flatMap f := fun b member => by
    obtain ⟨c, listed, inside⟩ := List.mem_flatMap.mp member
    exact List.mem_flatMap.mpr ⟨c, among listed, inside⟩
  refine legal.part own (fun t member => ?_) (within _)
  have conditional := within _ member
  simp only [Select.terms, List.mem_append]
  exact .inl (.inl (.inr conditional))

theorem outputs (legal : s.Legal) : LegalAt (.of .select) (s.outputs.filterMap (·.term?)) [] := by
  refine legal.part legal.clauses.outputs (fun t member => ?_) (List.nil_subset _)
  simp only [Select.terms, List.mem_append]
  exact .inl (.inl (.inl member))

theorem groups (legal : s.Legal) : LegalAt (.of .groupBy) s.groups [] := by
  refine legal.part legal.clauses.groups (fun t member => ?_) (List.nil_subset _)
  simp only [Select.terms, List.mem_append]
  exact .inl (.inr member)

theorem orderings (legal : s.Legal) : LegalAt (.of .orderBy) (s.orderings.map (·.term)) [] := by
  refine legal.part legal.clauses.orderings (fun t member => ?_) (List.nil_subset _)
  simp only [Select.terms, List.mem_append]
  exact .inr member

theorem joins (legal : s.Legal) :
    LegalAt (.of .join) ((s.joins.filterMap (·.condition)).flatMap Condition.terms)
      ((s.joins.filterMap (·.condition)).flatMap Condition.selects) :=
  legal.conditions legal.clauses.joins (List.subset_append_left _ _)

theorem filters (legal : s.Legal) :
    LegalAt (.of .filter) (Condition.termsOfAll s.filters) (Condition.selectsOfAll s.filters) := by
  rw [Condition.termsOfAll_eq, Condition.selectsOfAll_eq]
  exact legal.conditions legal.clauses.filters fun _ member => List.mem_append_right _ (List.mem_append_left _ member)

theorem havings (legal : s.Legal) :
    LegalAt (.of .having) (Condition.termsOfAll s.havings) (Condition.selectsOfAll s.havings) := by
  rw [Condition.termsOfAll_eq, Condition.selectsOfAll_eq]
  exact legal.conditions legal.clauses.havings fun _ member => List.mem_append_right _ (List.mem_append_right _ member)

end Select.Legal

section Rendered

mutual

theorem walks_term (d : Dialect) : ∀ (t : Term) (here : Spot), LegalAt here [t] [] →
    Walks here (lexemesOf (t.tokens d)) here
  | .column owner path, _, _ => walks_columnTokens owner path.column
  | .literal v, _, _ => by
    refine .quiet ?_
    cases v <;> rfl
  | .aggregate f argument distinct, here, legal => by
    obtain ⟨allowed, own⟩ := legal.terms _ List.mem_cons_self
    have inner := walks_term d argument here.argument ⟨List.forall_mem_singleton.mpr own, legal.inner⟩
    have distinctly : Walks here.argument [.word "DISTINCT"] here.argument := .quiet rfl
    have argued : Walks here.argument
        (lexemesOf ((if distinct then [.word "DISTINCT", .space] else []) ++ argument.tokens d)) here.argument := by
      cases distinct with
      | false => exact inner
      | true => exact distinctly.append inner
    unfold Term.tokens
    rw [lexemesOf_cons, lexemesOf_parenthesized]
    exact .call f allowed argued
  | .subquery s, here, legal => by
    obtain ⟨there, walk⟩ := crosses_select d s false (legal.inner s List.mem_cons_self) here
    unfold Term.tokens
    rw [lexemesOf_parenthesized]
    exact walk.parenthesized
termination_by structural t => t

theorem walks_condition (d : Dialect) : ∀ (c : Condition) (here : Spot), LegalAt here c.terms c.selects →
    Walks here (lexemesOf (c.tokens d)) here
  | .compare left op right, here, legal => by
    obtain ⟨first, second⟩ := legal.cons
    have before := walks_term d left here first
    have after := walks_term d right here second
    unfold Condition.tokens
    rw [lexemesOf_append, lexemesOf_append]
    exact (before.append (.quiet (by cases op <;> rfl))).append after
  | .between term low high, here, legal => by
    obtain ⟨first, rest⟩ := legal.cons
    obtain ⟨second, third⟩ := rest.cons
    have value := walks_term d term here first
    have least := walks_term d low here second
    have greatest := walks_term d high here third
    unfold Condition.tokens
    rw [lexemesOf_append, lexemesOf_append, lexemesOf_append, lexemesOf_append]
    exact (((value.append (.quiet rfl)).append least).append (.quiet rfl)).append greatest
  | .constant truth, _, _ => .quiet (by cases truth <;> rfl)
  | .inValues term values negated, here, legal => by
    obtain ⟨first, rest⟩ := legal.cons
    have value := walks_term d term here first
    have members := walks_terms d values here rest
    unfold Condition.tokens
    rw [lexemesOf_membership]
    exact value.append ((Walks.quiet (by cases negated <;> rfl)).append (.parenthesized (.joined (.quiet rfl) members)))
  | .inSelect term select negated, here, legal => by
    obtain ⟨first, _⟩ := legal.cons
    have value := walks_term d term here first
    obtain ⟨there, members⟩ := crosses_select d select false
      (legal.inner select (List.mem_append_right _ List.mem_cons_self)) here
    unfold Condition.tokens
    rw [lexemesOf_membership]
    exact value.append ((Walks.quiet (by cases negated <;> rfl)).append members.parenthesized)
  | .isNull term negated, here, legal => by
    have value := walks_term d term here legal
    unfold Condition.tokens
    rw [lexemesOf_append]
    exact value.append (.quiet (by cases negated <;> rfl))
  | .exists select negated, here, legal => by
    obtain ⟨there, rows⟩ := crosses_select d select false (legal.inner select List.mem_cons_self) here
    unfold Condition.tokens
    rw [lexemesOf_append, lexemesOf_parenthesized]
    exact (Walks.quiet (by cases negated <;> rfl)).append rows.parenthesized
  | .and items, here, legal => by
    have walks := walks_conditions d items here legal
    unfold Condition.tokens
    rw [lexemesOf_parenthesized]
    exact .parenthesized (.joined (.quiet rfl) walks)
  | .or items, here, legal => by
    have walks := walks_conditions d items here legal
    unfold Condition.tokens
    rw [lexemesOf_parenthesized]
    exact .parenthesized (.joined (.quiet rfl) walks)
  | .not inner, here, legal => by
    have own := walks_condition d inner here legal
    have negation : Walks here (lexemesOf [.word "NOT", .space]) here := .quiet rfl
    unfold Condition.tokens
    split
    · rw [lexemesOf_append]
      exact negation.append own
    · rw [lexemesOf_append]
      exact negation.append own
    · rw [lexemesOf_append, lexemesOf_parenthesized]
      exact negation.append own.parenthesized
termination_by structural c => c

theorem walks_output (d : Dialect) : ∀ o : Output, LegalAt (.of .select) o.term?.toList [] →
    ∀ column ∈ o.columns d, Walks (.of .select) (lexemesOf column) (.of .select)
  | .term t, legal => List.forall_mem_singleton.mpr (walks_term d t (.of .select) legal)
  | .entity a, _ => List.forall_mem_map.mpr fun column _ => walks_columnTokens a.name column
termination_by structural o => o

theorem crosses_joinClause (d : Dialect) : ∀ j : JoinClause,
    LegalAt (.of .join) (j.condition.toList.flatMap Condition.terms) (j.condition.toList.flatMap Condition.selects) →
    Crosses (j.tokens d)
  | ⟨kind, target, link, condition⟩, legal => by
    have conditions := walks_conditionOfJoin d condition legal
    have related : ∀ item ∈ link.elim [] fun (owner, a) => [linkTokens owner a target.name],
        Walks (.of .join) (lexemesOf item) (.of .join) := by
      cases link with
      | none => exact fun _ member => absurd member List.not_mem_nil
      | some link => exact List.forall_mem_singleton.mpr (walks_linkTokens _ _ _)
    have items := List.forall_mem_append.mpr ⟨related, conditions⟩
    unfold JoinClause.tokens
    dsimp only
    split
    · exact crosses_part _ none (fun _ => .words _ (by decide)) ⟨_, walks_tableTokens _ _⟩
    · have on := crosses_on [kind.keyword, "JOIN"]
        (fun _ => by cases kind <;> exact .words _ (by decide)) target.entity.table target.name items
      simpa only [List.append_assoc] using on
termination_by structural j => j

theorem walks_sortKey (d : Dialect) : ∀ k : SortKey, LegalAt (.of .orderBy) [k.term] [] →
    ∀ key ∈ k.tokens d, Walks (.of .orderBy) (lexemesOf key) (.of .orderBy)
  | ⟨term, direction, nulls⟩, legal =>
    walks_orderingTokens d (walks_term d term (.of .orderBy) legal) direction nulls
termination_by structural k => k

theorem crosses_select (d : Dialect) : ∀ (s : Select) (aliased : Bool), s.Legal → Crosses (s.tokens d aliased)
  | ⟨distinct, outputs, fetches, sources, joins, generated, filters, groups, havings, orderings, limit, offset⟩,
      aliased, legal => by
    have columns : ∀ column ∈ aliasedColumns aliased 0 (outputColumns d outputs ++ fetches.flatMap (·.target.columns)),
        Walks (.of .select) (lexemesOf column) (.of .select) := by
      have listed := walks_outputs d outputs legal.outputs
      refine forall_aliasedColumns (List.forall_mem_append.mpr ⟨listed, fun column member => ?_⟩)
        (fun _ label own => walks_labelled label own) aliased 0
      obtain ⟨f, _, inside⟩ := List.mem_flatMap.mp member
      obtain ⟨name, _, rfl⟩ := List.mem_map.mp inside
      exact walks_columnTokens _ _
    have head : Crosses (words (if distinct then ["SELECT", "DISTINCT"] else ["SELECT"]) ++ [.space] ++
        if (outputColumns d outputs ++ fetches.flatMap (·.target.columns)).isEmpty then [.word "1"]
        else joined comma (aliasedColumns aliased 0 (outputColumns d outputs ++ fetches.flatMap (·.target.columns)))) := by
      refine crosses_part _ (some .select) (fun here => ?_) ⟨.of .select, ?_⟩
      · cases distinct <;> exact .words _ (by decide)
      · split
        · exact .quiet rfl
        · exact .joined (.quiet rfl) columns
    have source := crosses_from sources (crosses_joins d joins legal.joins) generated
    have filter := crosses_clauseTokens ["WHERE"] (wordBetween "AND") (fun _ => .words _ (by decide)) rfl
      (walks_conditions d filters (.of .filter) legal.filters)
    have group := crosses_clauseTokens ["GROUP", "BY"] comma (fun _ => .words _ (by decide)) rfl
      (walks_terms d groups (.of .groupBy) legal.groups)
    have having := crosses_clauseTokens ["HAVING"] (wordBetween "AND") (fun _ => .words _ (by decide)) rfl
      (walks_conditions d havings (.of .having) legal.havings)
    have order := crosses_clauseTokens ["ORDER", "BY"] comma (fun _ => .words _ (by decide)) rfl
      (walks_sortKeys d orderings legal.orderings)
    unfold Select.tokens
    dsimp only
    exact (((((head.append source).append filter).append group).append having).append order).append
      (crosses_pagingTokens d limit offset)
termination_by structural s => s

theorem walks_conditionOfJoin (d : Dialect) : ∀ c : Option Condition,
    LegalAt (.of .join) (c.toList.flatMap Condition.terms) (c.toList.flatMap Condition.selects) →
    ∀ item ∈ conditionOfJoin d c, Walks (.of .join) (lexemesOf item) (.of .join)
  | none, _ => fun _ member => absurd member List.not_mem_nil
  | some c, legal => by
    simp only [Option.toList_some, List.flatMap_singleton] at legal
    exact List.forall_mem_singleton.mpr (walks_condition d c (.of .join) legal)
termination_by structural c => c

theorem walks_terms (d : Dialect) : ∀ (ts : List Term) (here : Spot), LegalAt here ts [] →
    ∀ item ∈ termTokens d ts, Walks here (lexemesOf item) here
  | [], _, _ => fun _ member => absurd member List.not_mem_nil
  | t :: rest, here, legal => by
    obtain ⟨own, others⟩ := legal.cons
    exact List.forall_mem_cons.mpr ⟨walks_term d t here own, walks_terms d rest here others⟩
termination_by structural ts => ts

theorem walks_conditions (d : Dialect) : ∀ (cs : List Condition) (here : Spot),
    LegalAt here (Condition.termsOfAll cs) (Condition.selectsOfAll cs) →
    ∀ item ∈ conditionTokens d cs, Walks here (lexemesOf item) here
  | [], _, _ => fun _ member => absurd member List.not_mem_nil
  | c :: rest, here, legal => by
    obtain ⟨own, others⟩ := legal.append
    exact List.forall_mem_cons.mpr ⟨walks_condition d c here own, walks_conditions d rest here others⟩
termination_by structural cs => cs

theorem walks_outputs (d : Dialect) : ∀ os : List Output, LegalAt (.of .select) (os.filterMap (·.term?)) [] →
    ∀ column ∈ outputColumns d os, Walks (.of .select) (lexemesOf column) (.of .select)
  | [], _ => fun _ member => absurd member List.not_mem_nil
  | o :: rest, legal => by
    have parted : LegalAt (.of .select) (o.term?.toList ++ rest.filterMap (·.term?)) ([] ++ []) := by
      cases o <;> exact legal
    obtain ⟨own, others⟩ := parted.append
    exact List.forall_mem_append.mpr ⟨walks_output d o own, walks_outputs d rest others⟩
termination_by structural os => os

theorem crosses_joins (d : Dialect) : ∀ js : List JoinClause,
    LegalAt (.of .join) ((js.filterMap (·.condition)).flatMap Condition.terms)
      ((js.filterMap (·.condition)).flatMap Condition.selects) → Crosses (joinTokens d js)
  | [], _ => .nil
  | j :: rest, legal => by
    have split : (j :: rest).filterMap (·.condition) = j.condition.toList ++ rest.filterMap (·.condition) := by
      obtain ⟨kind, target, link, condition⟩ := j
      cases condition <;> rfl
    rw [split, List.flatMap_append, List.flatMap_append] at legal
    obtain ⟨own, others⟩ := legal.append
    exact (crosses_joinClause d j own).append (crosses_joins d rest others)
termination_by structural js => js

theorem walks_sortKeys (d : Dialect) : ∀ ks : List SortKey, LegalAt (.of .orderBy) (ks.map (·.term)) [] →
    ∀ key ∈ sortTokens d ks, Walks (.of .orderBy) (lexemesOf key) (.of .orderBy)
  | [], _ => fun _ member => absurd member List.not_mem_nil
  | k :: rest, legal => by
    obtain ⟨own, others⟩ := legal.cons
    exact List.forall_mem_append.mpr ⟨walks_sortKey d k own, walks_sortKeys d rest others⟩
termination_by structural ks => ks

end

theorem crosses_countWord : Crosses countWord := by
  intro here
  have number : Walks (.of .select) (.word AggregateFunction.count.keyword :: enclosed [.symbol "*"]) (.of .select) :=
    .call .count ⟨.inl rfl, rfl⟩ (.quiet (by decide))
  exact ⟨_, (Walks.words ["SELECT"] (by decide)).append number⟩

/-- The queries that are counted call their aggregates where that is allowed. -/
def CountQuery.Legal : CountQuery → Prop
  | sources s | derived s => s.Legal

theorem crosses_count (d : Dialect) (q : CountQuery) (legal : q.Legal) : Crosses (q.tokens d) := by
  cases q with
  | sources s =>
    have legal : s.Legal := legal
    have source := crosses_from s.sources (crosses_joins d s.joins legal.joins) s.generated
    have filter := crosses_clauseTokens ["WHERE"] (wordBetween "AND") (fun _ => .words _ (by decide)) rfl
      (walks_conditions d s.filters (.of .filter) legal.filters)
    exact (crosses_countWord.append source).append filter
  | derived s =>
    obtain ⟨there, rows⟩ := crosses_select d s true legal ⟨none, false⟩
    have table : Walks ⟨none, false⟩
        (lexemesOf (parenthesized (s.tokens d true) ++ (wordBetween "AS" ++ [.identifier "grappelli_count"])))
        ⟨none, false⟩ := by
      rw [lexemesOf_append, lexemesOf_parenthesized]
      exact rows.parenthesized.append (.quiet rfl)
    have source : Crosses (words ["FROM"] ++ [.space] ++
        (parenthesized (s.tokens d true) ++ (wordBetween "AS" ++ [.identifier "grappelli_count"]))) :=
      crosses_part _ none (fun _ => .words _ (by decide)) ⟨_, table⟩
    have whole := crosses_countWord.append source
    unfold CountQuery.tokens
    simpa only [List.append_assoc] using whole

theorem Dialect.aggregateCalls_ofTokens (d : Dialect) {b : Bool} {ts : List Token} (tidy : Tidy b ts) :
    d.aggregateCalls (Statement.ofTokens d ts).sql = Cursor.calls ⟨⟨none, false⟩, [], none⟩ (lexemesOf ts) := by
  rw [aggregateCalls, Statement.lexemes_ofTokens tidy]

/-- The aggregates that a statement names are called where they may be if those of each of its parts are. -/
theorem Crosses.statement {d : Dialect} {b : Bool} {ts : List Token} (crosses : Crosses ts) (tidy : Tidy b ts) :
    ∀ call ∈ d.aggregateCalls (Statement.ofTokens d ts).sql, call.spot.Allows := by
  obtain ⟨there, walk⟩ := crosses ⟨none, false⟩
  rw [d.aggregateCalls_ofTokens tidy]
  exact walk.calls []

end Rendered

end EntityMapper
