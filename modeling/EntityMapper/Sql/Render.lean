import EntityMapper.Sql.Select

namespace EntityMapper

def columnTokens (owner column : String) : List Token := [.identifier owner, .symbol ".", .identifier column]

def tableTokens (table name : String) : List Token :=
  [.identifier table, .space, .word "AS", .space, .identifier name]

def parenthesized (inner : List Token) : List Token := .symbol "(" :: inner ++ [.symbol ")"]

/-- A binary operator, or a word between two operands. -/
def wordBetween (word : String) : List Token := [.space, .word word, .space]

def comma : List Token := [.symbol ",", .space]

/-- The condition that relates an owner's row to a target's. -/
def linkTokens (owner : String) (association : Association) (target : String) : List Token :=
  columnTokens owner association.ownerColumn ++ [.space, .symbol "=", .space] ++
    columnTokens target association.targetColumn

/-- Columns with, for a derived table, the names `c0`, `c1` and so on. -/
def aliasedColumns (aliased : Bool) (start : Nat) : List (List Token) → List (List Token)
  | [] => []
  | column :: rest =>
    (if aliased then column ++ wordBetween "AS" ++ [.identifier s!"c{start}"] else column) ::
      aliasedColumns aliased (start + 1) rest

/-- The columns of an entity under an alias. -/
def Alias.columns (a : Alias) : List (List Token) := a.entity.selectedColumns.map (columnTokens a.name)

def GeneratedJoin.tokens (j : GeneratedJoin) : List Token :=
  words ["INNER", "JOIN"] ++ [.space] ++ tableTokens j.association.targetTable j.target.name ++ wordBetween "ON" ++
    linkTokens j.owner j.association j.target.name

/-- Sources beside each other. -/
def sourceTokens (sources : List Alias) : List Token :=
  joined (words ["CROSS", "JOIN"] ++ [.space]) (sources.map fun a => tableTokens a.entity.table a.name)

/-- The words before a clause's items, and the items with commas between them; nothing without items. -/
def clauseTokens (keywords : List String) (separator : List Token) (items : List (List Token)) : List Token :=
  if items.isEmpty then [] else words keywords ++ [.space] ++ joined separator items

/-- The sort keys of an ordered term. Where the dialect has no words for the place of nulls, a key that tells null from
other values comes first. -/
def orderingTokens (d : Dialect) (term : List Token) (direction : Direction) (nulls : Option NullPlacement) :
    List (List Token) :=
  let key := term ++ words [direction.keyword]
  match nulls with
  | none => [key]
  | some placement =>
    if d.ordersNulls then [key ++ words ["NULLS", placement.keyword]]
    else
      let isNull := term ++ words ["IS", "NULL"]
      match placement with
      | .first => [isNull ++ words ["DESC"], key]
      | .last => [isNull, key]

mutual

def Term.tokens (d : Dialect) : Term → List Token
  | .column owner path => columnTokens owner path.column
  | .literal v => [.value v]
  | .aggregate f argument distinct =>
    .word f.keyword :: parenthesized ((if distinct then [.word "DISTINCT", .space] else []) ++ argument.tokens d)
  | .subquery s => parenthesized (s.tokens d false)
termination_by structural t => t

def Condition.tokens (d : Dialect) : Condition → List Token
  | .compare left op right => left.tokens d ++ [.space, .symbol op.symbol, .space] ++ right.tokens d
  | .between term low high =>
    term.tokens d ++ wordBetween "BETWEEN" ++ low.tokens d ++ wordBetween "AND" ++ high.tokens d
  | .constant truth => [.word "1", .space, .symbol "=", .space, .word (if truth then "1" else "0")]
  | .inValues term values negated =>
    term.tokens d ++ words (if negated then ["NOT", "IN"] else ["IN"]) ++ [.space] ++
      parenthesized (joined comma (termTokens d values))
  | .inSelect term select negated =>
    term.tokens d ++ words (if negated then ["NOT", "IN"] else ["IN"]) ++ [.space] ++
      parenthesized (select.tokens d false)
  | .isNull term negated => term.tokens d ++ words (if negated then ["IS", "NOT", "NULL"] else ["IS", "NULL"])
  | .exists select negated =>
    (if negated then [.word "NOT", .space] else []) ++ [.word "EXISTS", .space] ++
      parenthesized (select.tokens d false)
  | .and items => parenthesized (joined (wordBetween "AND") (conditionTokens d items))
  | .or items => parenthesized (joined (wordBetween "OR") (conditionTokens d items))
  | .not inner =>
    match inner with
    | .and _ | .or _ => [.word "NOT", .space] ++ inner.tokens d
    | _ => [.word "NOT", .space] ++ parenthesized (inner.tokens d)
termination_by structural c => c

def Output.columns (d : Dialect) : Output → List (List Token)
  | .term t => [t.tokens d]
  | .entity a => Alias.columns a
termination_by structural o => o

/-- A join without association and without condition combines every row with every row. -/
def JoinClause.tokens (d : Dialect) : JoinClause → List Token
  | ⟨kind, target, link, condition⟩ =>
    let related := link.elim [] fun (owner, association) => [linkTokens owner association target.name]
    let items := related ++ conditionOfJoin d condition
    let table := tableTokens target.entity.table target.name
    if items.isEmpty then words ["CROSS", "JOIN"] ++ [.space] ++ table
    else words [kind.keyword, "JOIN"] ++ [.space] ++ table ++ wordBetween "ON" ++ joined (wordBetween "AND") items
termination_by structural j => j

def SortKey.tokens (d : Dialect) : SortKey → List (List Token)
  | ⟨term, direction, nulls⟩ => orderingTokens d (term.tokens d) direction nulls
termination_by structural k => k

/-- The text of a query; the columns are named when it is counted as a derived table. -/
def Select.tokens (d : Dialect) (aliased : Bool) : Select → List Token
  | ⟨distinct, outputs, fetches, sources, joins, generated, filters, groups, havings, orderings, limit, offset⟩ =>
    let columns := outputColumns d outputs ++ fetches.flatMap (·.target.columns)
    words (if distinct then ["SELECT", "DISTINCT"] else ["SELECT"]) ++ [.space] ++
      (if columns.isEmpty then [.word "1"] else joined comma (aliasedColumns aliased 0 columns)) ++
      (words ["FROM"] ++ [.space] ++ sourceTokens sources ++ joinTokens d joins ++
        generated.flatMap GeneratedJoin.tokens) ++
      clauseTokens ["WHERE"] (wordBetween "AND") (conditionTokens d filters) ++
      clauseTokens ["GROUP", "BY"] comma (termTokens d groups) ++
      clauseTokens ["HAVING"] (wordBetween "AND") (conditionTokens d havings) ++
      clauseTokens ["ORDER", "BY"] comma (sortTokens d orderings) ++
      pagingTokens d limit offset
termination_by structural s => s

def conditionOfJoin (d : Dialect) : Option Condition → List (List Token)
  | none => []
  | some c => [c.tokens d]
termination_by structural c => c

def termTokens (d : Dialect) : List Term → List (List Token)
  | [] => []
  | t :: rest => t.tokens d :: termTokens d rest
termination_by structural ts => ts

def conditionTokens (d : Dialect) : List Condition → List (List Token)
  | [] => []
  | c :: rest => c.tokens d :: conditionTokens d rest
termination_by structural cs => cs

def outputColumns (d : Dialect) : List Output → List (List Token)
  | [] => []
  | o :: rest => o.columns d ++ outputColumns d rest
termination_by structural os => os

def joinTokens (d : Dialect) : List JoinClause → List Token
  | [] => []
  | j :: rest => j.tokens d ++ joinTokens d rest
termination_by structural js => js

def sortTokens (d : Dialect) : List SortKey → List (List Token)
  | [] => []
  | k :: rest => k.tokens d ++ sortTokens d rest
termination_by structural ks => ks

end

end EntityMapper
