import EntityMapper.Proofs.Sql.Placeholders
import EntityMapper.Sql.Render

namespace EntityMapper

namespace Value

/-- One value for all values of a type. Null stays null. -/
def template : Value → Value
  | null => null
  | bool _ => bool false
  | int _ => int 0
  | float _ => float default
  | text _ => text ""

/-- One value for all values but null. -/
def blank (v : Value) : Value := if v.isNull then null else int 0

@[simp] theorem isNull_template (v : Value) : v.template.isNull = v.isNull := by cases v <;> rfl

@[simp] theorem isNull_blank (v : Value) : v.blank.isNull = v.isNull := by cases v <;> rfl

@[simp] theorem dataType?_template (v : Value) : v.template.dataType? = v.dataType? := by cases v <;> rfl

end Value

mutual

/-- A term with the template of each literal in its place. -/
def Term.template : Term → Term
  | .column owner path => .column owner path
  | .literal v => .literal v.template
  | .aggregate f argument distinct => .aggregate f argument.template distinct
  | .subquery s => .subquery s.template
termination_by structural t => t

def Condition.template : Condition → Condition
  | .compare left op right => .compare left.template op right.template
  | .between term low high => .between term.template low.template high.template
  | .constant truth => .constant truth
  | .inValues term values negated => .inValues term.template (termTemplates values) negated
  | .inSelect term select negated => .inSelect term.template select.template negated
  | .isNull term negated => .isNull term.template negated
  | .exists select negated => .exists select.template negated
  | .and items => .and (conditionTemplates items)
  | .or items => .or (conditionTemplates items)
  | .not inner => .not inner.template
termination_by structural c => c

def Output.template : Output → Output
  | .term t => .term t.template
  | .entity a => .entity a
termination_by structural o => o

def JoinClause.template : JoinClause → JoinClause
  | ⟨kind, target, link, condition⟩ => ⟨kind, target, link, onTemplate condition⟩
termination_by structural j => j

def SortKey.template : SortKey → SortKey
  | ⟨term, direction, nulls⟩ => ⟨term.template, direction, nulls⟩
termination_by structural k => k

/-- A query with the template of each literal in its place and the same number for every bound. -/
def Select.template : Select → Select
  | ⟨distinct, outputs, fetches, sources, joins, generated, filters, groups, havings, orderings, limit, offset⟩ =>
    ⟨distinct, outputTemplates outputs, fetches, sources, clauseTemplates joins, generated, conditionTemplates filters,
      termTemplates groups, conditionTemplates havings, sortKeyTemplates orderings, limit.map fun _ => 0,
      offset.map fun _ => 0⟩
termination_by structural s => s

def onTemplate : Option Condition → Option Condition
  | none => none
  | some c => some c.template
termination_by structural c => c

def termTemplates : List Term → List Term
  | [] => []
  | t :: rest => t.template :: termTemplates rest
termination_by structural ts => ts

def conditionTemplates : List Condition → List Condition
  | [] => []
  | c :: rest => c.template :: conditionTemplates rest
termination_by structural cs => cs

def outputTemplates : List Output → List Output
  | [] => []
  | o :: rest => o.template :: outputTemplates rest
termination_by structural os => os

def clauseTemplates : List JoinClause → List JoinClause
  | [] => []
  | j :: rest => j.template :: clauseTemplates rest
termination_by structural js => js

def sortKeyTemplates : List SortKey → List SortKey
  | [] => []
  | k :: rest => k.template :: sortKeyTemplates rest
termination_by structural ks => ks

end

/-- A token with another value in the place of its value. -/
def Token.mapValue (f : Value → Value) : Token → Token
  | value v => value (f v)
  | other => other

section Written

variable {f : Value → Value} (kept : ∀ v, (f v).isNull = v.isNull)

include kept

theorem Token.written_mapValue (d : Dialect) (last : Option Char) (n : Nat) (t : Token) :
    (t.mapValue f).written d last n = t.written d last n := by
  cases t with
  | value v => rw [mapValue, written, written, kept]
  | _ => rfl

theorem Token.param?_mapValue (t : Token) : (t.mapValue f).param?.toList.length = t.param?.toList.length := by
  cases t with
  | value v =>
    rw [mapValue, param?, param?, kept]
    cases v.isNull <;> rfl
  | _ => rfl

/-- The text of a statement depends on which of its values are null, and on nothing else of them. -/
theorem Statement.sql_mapValue (d : Dialect) (ts : List Token) :
    (Statement.ofTokens d (ts.map (Token.mapValue f))).sql = (Statement.ofTokens d ts).sql := by
  have written (last : Option Char) (n : Nat) :
      Writer.written d last n (ts.map (Token.mapValue f)) = Writer.written d last n ts := by
    induction ts generalizing last n with
    | nil => rfl
    | cons t rest ih =>
      rw [List.map_cons, Writer.written, Writer.written, Token.written_mapValue kept, Token.param?_mapValue kept, ih]
  rw [ofTokens_eq, ofTokens_eq, written]

end Written

section Mapped

variable (f : Value → Value)

@[simp] theorem mapValue_words (keywords : List String) :
    (words keywords).map (Token.mapValue f) = words keywords := by
  induction keywords with
  | nil => rfl
  | cons s rest ih => exact congrArg (.space :: .word s :: ·) ih

@[simp] theorem mapValue_wordBetween (word : String) :
    (wordBetween word).map (Token.mapValue f) = wordBetween word := rfl

@[simp] theorem mapValue_comma : comma.map (Token.mapValue f) = comma := rfl

@[simp] theorem mapValue_parenthesized (inner : List Token) :
    (parenthesized inner).map (Token.mapValue f) = parenthesized (inner.map (Token.mapValue f)) := by
  simp [parenthesized, Token.mapValue]

theorem mapValue_joined {separator : List Token} (fixed : separator.map (Token.mapValue f) = separator)
    (items : List (List Token)) :
    (joined separator items).map (Token.mapValue f) = joined separator (items.map (List.map (Token.mapValue f))) := by
  induction items with
  | nil => rfl
  | cons first rest ih =>
    cases rest with
    | nil => simp only [joined_singleton, List.map_cons, List.map_nil]
    | cons second rest =>
      rw [joined_cons_cons, List.map_append, List.map_append, fixed, ih]
      exact (joined_cons_cons separator _ _ _).symm

theorem mapValue_clauseTokens (keywords : List String) {separator : List Token}
    (fixed : separator.map (Token.mapValue f) = separator) (items : List (List Token)) :
    (clauseTokens keywords separator items).map (Token.mapValue f) =
      clauseTokens keywords separator (items.map (List.map (Token.mapValue f))) := by
  unfold clauseTokens
  rw [List.isEmpty_map]
  split
  · rfl
  · simp only [List.map_append, mapValue_words, mapValue_joined f fixed]
    rfl

theorem mapValue_aliasedColumns (aliased : Bool) (start : Nat) (columns : List (List Token)) :
    (aliasedColumns aliased start columns).map (List.map (Token.mapValue f)) =
      aliasedColumns aliased start (columns.map (List.map (Token.mapValue f))) := by
  induction columns generalizing start with
  | nil => rfl
  | cons column rest ih =>
    rw [aliasedColumns, List.map_cons, ih, List.map_cons, aliasedColumns]
    cases aliased with
    | false => rfl
    | true => simp [Token.mapValue]

theorem mapValue_columns (a : Alias) : a.columns.map (List.map (Token.mapValue f)) = a.columns := by
  rw [Alias.columns, List.map_map]
  rfl

theorem mapValue_sourceTokens (sources : List Alias) :
    (sourceTokens sources).map (Token.mapValue f) = sourceTokens sources := by
  rw [sourceTokens, mapValue_joined f (by simp [Token.mapValue]), List.map_map]
  rfl

theorem mapValue_generatedJoins (joins : List GeneratedJoin) :
    (joins.flatMap GeneratedJoin.tokens).map (Token.mapValue f) = joins.flatMap GeneratedJoin.tokens := by
  induction joins with
  | nil => rfl
  | cons j rest ih =>
    have own : j.tokens.map (Token.mapValue f) = j.tokens := by simp [GeneratedJoin.tokens, tableTokens, linkTokens,
      columnTokens, Token.mapValue]
    rw [List.flatMap_cons, List.map_append, own, ih]

theorem mapValue_orderingTokens (d : Dialect) (term : List Token) (direction : Direction)
    (nulls : Option NullPlacement) :
    (orderingTokens d term direction nulls).map (List.map (Token.mapValue f)) =
      orderingTokens d (term.map (Token.mapValue f)) direction nulls := by
  unfold orderingTokens
  cases nulls with
  | none => simp
  | some placement =>
    cases d.ordersNulls with
    | true => simp
    | false => cases placement <;> simp

end Mapped

section Templates

theorem template_pagingTokens (d : Dialect) (limit offset : Option Nat) :
    pagingTokens d (limit.map fun _ => 0) (offset.map fun _ => 0) =
      (pagingTokens d limit offset).map (Token.mapValue Value.template) := by
  have bound (keywords : List String) (n : Nat) :
      (boundTokens keywords n).map (Token.mapValue Value.template) = boundTokens keywords 0 := by
    rw [boundTokens, List.map_append, mapValue_words]
    rfl
  have optional (keyword : String) (n : Option Nat) :
      (n.map fun _ => 0).elim [] (boundTokens [keyword]) =
        (n.elim [] (boundTokens [keyword])).map (Token.mapValue Value.template) := by
    cases n with
    | none => rfl
    | some n => exact (bound [keyword] n).symm
  unfold pagingTokens
  cases d with
  | sqlite => cases limit <;> cases offset <;> simp [bound]
  | mysql => cases limit <;> cases offset <;> simp [bound]
  | _ => rw [List.map_append, optional, optional]

variable (d : Dialect)

/-- A negation has parentheses of its own around anything but a conjunction or a disjunction, and a template is what
its condition is. -/
theorem mapValue_not {inner : Condition}
    (own : inner.template.tokens d = (inner.tokens d).map (Token.mapValue Value.template)) :
    (Condition.not inner).template.tokens d = ((Condition.not inner).tokens d).map (Token.mapValue Value.template) := by
  cases inner with
  | and items => exact congrArg ([.word "NOT", .space] ++ ·) own
  | or items => exact congrArg ([.word "NOT", .space] ++ ·) own
  | _ =>
    refine (congrArg (fun tokens => [.word "NOT", .space] ++ parenthesized tokens) own).trans ?_
    rw [← mapValue_parenthesized]
    rfl

/-- Every column of a select list is mapped on its own. -/
theorem mapValue_selectList (f : Value → Value) (aliased : Bool) (columns : List (List Token)) :
    (if columns.isEmpty then [.word "1"] else joined comma (aliasedColumns aliased 0 columns)).map (Token.mapValue f) =
      if (columns.map (List.map (Token.mapValue f))).isEmpty then [.word "1"]
      else joined comma (aliasedColumns aliased 0 (columns.map (List.map (Token.mapValue f)))) := by
  rw [List.isEmpty_map]
  split
  · rfl
  · rw [mapValue_joined f (mapValue_comma f), mapValue_aliasedColumns]

/-- The association that a join follows relates columns, so its condition has all of its values. -/
theorem mapValue_joinClause (f : Value → Value) (kind : JoinKind) (target : Alias)
    (link : Option (String × Association)) {condition mapped : Option Condition}
    (own : conditionOfJoin d mapped = (conditionOfJoin d condition).map (List.map (Token.mapValue f))) :
    JoinClause.tokens d ⟨kind, target, link, mapped⟩ =
      (JoinClause.tokens d ⟨kind, target, link, condition⟩).map (Token.mapValue f) := by
  have items (related : List (List Token)) (fixed : related.map (List.map (Token.mapValue f)) = related) :
      related ++ conditionOfJoin d mapped =
        (related ++ conditionOfJoin d condition).map (List.map (Token.mapValue f)) := by
    rw [own, List.map_append, fixed]
  unfold JoinClause.tokens
  dsimp only
  rw [items _ (by cases link <;> rfl), List.isEmpty_map]
  split
  · simp [tableTokens, Token.mapValue]
  · simp only [List.map_append, mapValue_joined f (mapValue_wordBetween f "AND"), mapValue_words]
    rfl

mutual

theorem Term.tokens_template : ∀ t : Term, t.template.tokens d = (t.tokens d).map (Token.mapValue Value.template)
  | .column _ _ => rfl
  | .literal _ => rfl
  | .aggregate f argument distinct => by
    have inner := Term.tokens_template argument
    rw [Term.template, Term.tokens, inner, Term.tokens]
    cases distinct <;> simp [Token.mapValue]
  | .subquery s => by
    have inner := Select.tokens_template s false
    rw [Term.template, Term.tokens, inner, Term.tokens, mapValue_parenthesized]
termination_by structural t => t

theorem Condition.tokens_template : ∀ c : Condition,
    c.template.tokens d = (c.tokens d).map (Token.mapValue Value.template)
  | .compare left op right => by
    have first := Term.tokens_template left
    have second := Term.tokens_template right
    rw [Condition.template, Condition.tokens, first, second, Condition.tokens]
    simp [Token.mapValue]
  | .between term low high => by
    have first := Term.tokens_template term
    have second := Term.tokens_template low
    have third := Term.tokens_template high
    rw [Condition.template, Condition.tokens, first, second, third, Condition.tokens]
    simp
  | .constant truth => by cases truth <;> rfl
  | .inValues term values negated => by
    have sought := Term.tokens_template term
    have listed := termTokens_templates values
    rw [Condition.template, Condition.tokens, sought, listed, Condition.tokens, List.map_append,
      mapValue_parenthesized, mapValue_joined _ (mapValue_comma _)]
    simp [Token.mapValue]
  | .inSelect term select negated => by
    have sought := Term.tokens_template term
    have inner := Select.tokens_template select false
    rw [Condition.template, Condition.tokens, sought, inner, Condition.tokens]
    simp [Token.mapValue]
  | .isNull term negated => by
    have own := Term.tokens_template term
    rw [Condition.template, Condition.tokens, own, Condition.tokens]
    simp
  | .exists select negated => by
    have inner := Select.tokens_template select false
    rw [Condition.template, Condition.tokens, inner, Condition.tokens]
    cases negated <;> simp [Token.mapValue]
  | .and items => by
    have own := conditionTokens_templates items
    rw [Condition.template, Condition.tokens, own, Condition.tokens, mapValue_parenthesized,
      mapValue_joined _ (mapValue_wordBetween _ "AND")]
  | .or items => by
    have own := conditionTokens_templates items
    rw [Condition.template, Condition.tokens, own, Condition.tokens, mapValue_parenthesized,
      mapValue_joined _ (mapValue_wordBetween _ "OR")]
  | .not inner => mapValue_not d (Condition.tokens_template inner)
termination_by structural c => c

theorem outputColumns_templates : ∀ os : List Output,
    outputColumns d (outputTemplates os) = (outputColumns d os).map (List.map (Token.mapValue Value.template))
  | [] => rfl
  | .term t :: rest => by
    have own := Term.tokens_template t
    have others := outputColumns_templates rest
    rw [outputTemplates, Output.template, outputColumns, Output.columns, own, others, outputColumns, Output.columns]
    simp
  | .entity a :: rest => by
    have others := outputColumns_templates rest
    rw [outputTemplates, Output.template, outputColumns, Output.columns, others, outputColumns, Output.columns]
    simp [mapValue_columns]
termination_by structural os => os

theorem JoinClause.tokens_template : ∀ j : JoinClause,
    j.template.tokens d = (j.tokens d).map (Token.mapValue Value.template)
  | ⟨kind, target, link, condition⟩ =>
    mapValue_joinClause d Value.template kind target link (conditionOfJoin_template condition)
termination_by structural j => j

theorem Select.tokens_template : ∀ (s : Select) (aliased : Bool),
    s.template.tokens d aliased = (s.tokens d aliased).map (Token.mapValue Value.template)
  | ⟨distinct, outputs, fetches, sources, joins, generated, filters, groups, havings, orderings, limit, offset⟩,
    aliased => by
    have columns := outputColumns_templates outputs
    have joined := joinTokens_templates joins
    have filtered := conditionTokens_templates filters
    have grouped := termTokens_templates groups
    have restricted := conditionTokens_templates havings
    have ordered := sortTokens_templates orderings
    have fetched : (fetches.flatMap (·.target.columns)).map (List.map (Token.mapValue Value.template)) =
        fetches.flatMap (·.target.columns) := by
      rw [List.map_flatMap]
      exact congrArg (fetches.flatMap ·) (funext fun j => mapValue_columns _ j.target)
    rw [Select.template, Select.tokens, columns, joined, filtered, grouped, restricted, ordered, Select.tokens]
    simp only [List.map_append, mapValue_selectList, mapValue_words, fetched, mapValue_sourceTokens,
      mapValue_generatedJoins, mapValue_clauseTokens _ _ (mapValue_comma _),
      mapValue_clauseTokens _ _ (mapValue_wordBetween _ "AND"), template_pagingTokens]
    rfl
termination_by structural s => s

theorem conditionOfJoin_template : ∀ c : Option Condition,
    conditionOfJoin d (onTemplate c) = (conditionOfJoin d c).map (List.map (Token.mapValue Value.template))
  | none => rfl
  | some c => congrArg (fun tokens => [tokens]) (Condition.tokens_template c)
termination_by structural c => c

theorem termTokens_templates : ∀ ts : List Term,
    termTokens d (termTemplates ts) = (termTokens d ts).map (List.map (Token.mapValue Value.template))
  | [] => rfl
  | t :: rest => congrArg₂ List.cons (Term.tokens_template t) (termTokens_templates rest)
termination_by structural ts => ts

theorem conditionTokens_templates : ∀ cs : List Condition,
    conditionTokens d (conditionTemplates cs) = (conditionTokens d cs).map (List.map (Token.mapValue Value.template))
  | [] => rfl
  | c :: rest => congrArg₂ List.cons (Condition.tokens_template c) (conditionTokens_templates rest)
termination_by structural cs => cs

theorem joinTokens_templates : ∀ js : List JoinClause,
    joinTokens d (clauseTemplates js) = (joinTokens d js).map (Token.mapValue Value.template)
  | [] => rfl
  | j :: rest => by
    have own := JoinClause.tokens_template j
    have others := joinTokens_templates rest
    rw [clauseTemplates, joinTokens, own, others, joinTokens, List.map_append]
termination_by structural js => js

theorem sortTokens_templates : ∀ ks : List SortKey,
    sortTokens d (sortKeyTemplates ks) = (sortTokens d ks).map (List.map (Token.mapValue Value.template))
  | [] => rfl
  | ⟨term, direction, nulls⟩ :: rest => by
    have own := Term.tokens_template term
    have others := sortTokens_templates rest
    rw [sortKeyTemplates, SortKey.template, sortTokens, SortKey.tokens, own, others, sortTokens, SortKey.tokens,
      List.map_append, mapValue_orderingTokens]
termination_by structural ks => ks

end

end Templates

end EntityMapper
