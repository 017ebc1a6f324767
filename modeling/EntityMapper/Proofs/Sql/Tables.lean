import Mathlib.Tactic.Common
import EntityMapper.Proofs.Sql.Clauses

namespace EntityMapper

/-- A table of a FROM clause: what it introduces, the name of the table, and the alias and the association that it is
joined along. -/
structure FromTable where
  source : Alias
  table : String
  link : Option (String × Association)
  deriving DecidableEq, Repr

namespace FromTable

def name (t : FromTable) : String := t.source.name

def ofSource (a : Alias) : FromTable := ⟨a, a.entity.table, none⟩

def ofJoin (target : Alias) (link : Option (String × Association)) : FromTable := ⟨target, target.entity.table, link⟩

def ofGenerated (j : GeneratedJoin) : FromTable := ⟨j.target, j.association.targetTable, some (j.owner, j.association)⟩

/-- What a FROM clause says of a table: its name, its alias and, behind a join along an association, the columns that
are related. -/
def tokens (t : FromTable) : List Token :=
  tableTokens t.table t.name ++ t.link.elim [] fun (owner, a) => wordBetween "ON" ++ linkTokens owner a t.name

end FromTable

/-- A table as a FROM clause brings it in: the words of its join, of which the first table has none, and what is asked
beyond the association. -/
structure FromPiece where
  table : FromTable
  join : List String
  condition : Option Condition

namespace FromPiece

/-- The text of a piece holds one table under one alias. -/
def tokens (d : Dialect) (p : FromPiece) : List Token :=
  (if p.join.isEmpty then [] else words p.join ++ [.space]) ++ p.table.tokens ++
    p.condition.elim [] fun c => wordBetween (if p.table.link.isSome then "AND" else "ON") ++ c.tokens d

def ofSource (join : List String) (a : Alias) : FromPiece := ⟨.ofSource a, join, none⟩

def ofSources : List Alias → List FromPiece
  | [] => []
  | a :: rest => ofSource [] a :: rest.map (ofSource ["CROSS", "JOIN"])

/-- A join that asks for nothing is a product. -/
def ofJoin (j : JoinClause) : FromPiece where
  table := .ofJoin j.target j.link
  join := if j.link.isNone && j.condition.isNone then ["CROSS", "JOIN"] else [j.kind.keyword, "JOIN"]
  condition := j.condition

def ofGenerated (j : GeneratedJoin) : FromPiece := ⟨.ofGenerated j, ["INNER", "JOIN"], none⟩

end FromPiece

/-- The column that a term is, which may be an argument of aggregates: an alias and the path that is rendered. -/
def Term.column? : Term → Option (String × Path)
  | .column owner path => some (owner, path)
  | .aggregate _ argument _ => argument.column?
  | .literal _ | .subquery _ => none
termination_by structural t => t

/-- The subquery that a term is, which may be an argument of aggregates. -/
def Term.select? : Term → Option Select
  | .subquery select => some select
  | .aggregate _ argument _ => argument.select?
  | .column .. | .literal _ => none
termination_by structural t => t

namespace Condition

mutual

/-- The terms of a condition. Those inside subqueries are not among them. -/
def terms : Condition → List Term
  | .compare left _ right => [left, right]
  | .between term low high => [term, low, high]
  | .constant _ => []
  | .inValues term values _ => term :: values
  | .inSelect term _ _ => [term]
  | .isNull term _ => [term]
  | .exists _ _ => []
  | .and items => termsOfAll items
  | .or items => termsOfAll items
  | .not inner => inner.terms
termination_by structural c => c

def termsOfAll : List Condition → List Term
  | [] => []
  | item :: rest => item.terms ++ termsOfAll rest
termination_by structural cs => cs

end

mutual

/-- The queries in which a condition looks for members or for rows. Those that are terms are not among them. -/
def selects : Condition → List Select
  | .inSelect _ select _ => [select]
  | .exists select _ => [select]
  | .and items => selectsOfAll items
  | .or items => selectsOfAll items
  | .not inner => inner.selects
  | .compare .. | .between .. | .constant _ | .inValues .. | .isNull .. => []
termination_by structural c => c

def selectsOfAll : List Condition → List Select
  | [] => []
  | item :: rest => item.selects ++ selectsOfAll rest
termination_by structural cs => cs

end

end Condition

def Output.term? : Output → Option Term
  | .term t => some t
  | .entity _ => none

namespace Select

/-- The tables of the FROM clause in the order of the text. -/
def tables (s : Select) : List FromTable :=
  s.sources.map .ofSource ++ s.joins.map (fun j => .ofJoin j.target j.link) ++ s.generated.map .ofGenerated

/-- The pieces of the FROM clause in the order of the text. -/
def fromPieces (s : Select) : List FromPiece :=
  FromPiece.ofSources s.sources ++ s.joins.map .ofJoin ++ s.generated.map .ofGenerated

/-- The conditions of a query's clauses. -/
def conditions (s : Select) : List Condition := s.joins.filterMap (·.condition) ++ (s.filters ++ s.havings)

/-- The terms of a query's clauses. Those inside its subqueries are not among them. -/
def terms (s : Select) : List Term :=
  s.outputs.filterMap (·.term?) ++ s.conditions.flatMap Condition.terms ++ s.groups ++ s.orderings.map (·.term)

/-- The paths that a query's clauses render, each with the alias in front of its column. -/
def columns (s : Select) : List (String × Path) := s.terms.filterMap Term.column?

/-- The subqueries in a query's own clauses. -/
def inner (s : Select) : List Select := s.terms.filterMap Term.select? ++ s.conditions.flatMap Condition.selects

/-- A query of a statement with the queries around it, the innermost first. -/
inductive Encloses (s : Select) : List Select → Prop
  | whole : Encloses s [s]
  | inner {t u : Select} {outer : List Select} : Encloses s (t :: outer) → u ∈ t.inner → Encloses s (u :: t :: outer)

end Select

section Rendered

theorem joined_cons (separator first : List Token) (rest : List (List Token)) :
    joined separator (first :: rest) = first ++ rest.flatMap (separator ++ ·) := by
  induction rest generalizing first with
  | nil => rw [joined_singleton, List.flatMap_nil, List.append_nil]
  | cons second rest ih => rw [joined_cons_cons, ih, List.flatMap_cons, List.append_assoc]

theorem joinTokens_eq (d : Dialect) (js : List JoinClause) : joinTokens d js = js.flatMap (·.tokens d) := by
  induction js with
  | nil => rfl
  | cons j rest ih => rw [joinTokens, ih, List.flatMap_cons]

namespace FromPiece

variable (d : Dialect)

theorem tokens_ofSource (join : List String) (a : Alias) : (ofSource join a).tokens d =
    (if join.isEmpty then [] else words join ++ [.space]) ++ tableTokens a.entity.table a.name := by
  simp [tokens, ofSource, FromTable.tokens, FromTable.ofSource, FromTable.name]

theorem tokens_ofSources (sources : List Alias) : (ofSources sources).flatMap (·.tokens d) = sourceTokens sources := by
  cases sources with
  | nil => rfl
  | cons a rest =>
    simp only [ofSources, sourceTokens, List.flatMap_cons, List.map_cons, joined_cons, List.flatMap_map, tokens_ofSource]
    rfl

theorem tokens_ofJoin (j : JoinClause) : (ofJoin j).tokens d = j.tokens d := by
  obtain ⟨kind, target, link, condition⟩ := j
  unfold JoinClause.tokens
  cases link with
  | none =>
    cases condition with
    | none => simp [tokens, ofJoin, FromTable.tokens, FromTable.ofJoin, FromTable.name, conditionOfJoin]
    | some c => simp [tokens, ofJoin, FromTable.tokens, FromTable.ofJoin, FromTable.name, conditionOfJoin, joined_cons]
  | some link =>
    cases condition with
    | none => simp [tokens, ofJoin, FromTable.tokens, FromTable.ofJoin, FromTable.name, conditionOfJoin, joined_cons]
    | some c => simp [tokens, ofJoin, FromTable.tokens, FromTable.ofJoin, FromTable.name, conditionOfJoin, joined_cons]

theorem tokens_ofGenerated (j : GeneratedJoin) : (ofGenerated j).tokens d = j.tokens := by
  simp [tokens, ofGenerated, FromTable.tokens, FromTable.ofGenerated, FromTable.name, GeneratedJoin.tokens]

theorem infix_tokens (p : FromPiece) : p.table.tokens <:+: p.tokens d := by
  unfold tokens
  exact List.infix_append _ _ _

end FromPiece

namespace Select

theorem tables_fromPieces (s : Select) : s.fromPieces.map (·.table) = s.tables := by
  have sources : (FromPiece.ofSources s.sources).map (·.table) = s.sources.map .ofSource := by
    cases s.sources with
    | nil => rfl
    | cons a rest => simp only [FromPiece.ofSources, List.map_cons, List.map_map]; rfl
  rw [fromPieces, List.map_append, List.map_append, sources, List.map_map, List.map_map]
  rfl

/-- The text of a FROM clause is made of the pieces of its tables. -/
theorem fromTokens_eq (d : Dialect) (s : Select) :
    s.fromTokens d = words ["FROM"] ++ [.space] ++ s.fromPieces.flatMap (·.tokens d) := by
  simp only [fromTokens, fromPieces, List.flatMap_append, FromPiece.tokens_ofSources, List.flatMap_map,
    FromPiece.tokens_ofJoin, FromPiece.tokens_ofGenerated, joinTokens_eq, List.append_assoc]

end Select

end Rendered

end EntityMapper
