import EntityMapper.Proofs.Sql.Grammar

namespace EntityMapper

/-- The condition negates its atomic one. -/
def Condition.isNegated : Condition → Bool
  | .inValues _ _ negated | .inSelect _ _ negated | .isNull _ negated | .exists _ negated => negated
  | .compare .. | .between .. | .constant _ | .and _ | .or _ | .not _ => false

/-- The text of a condition that is not made of others, without its negation. -/
def Condition.atom? (d : Dialect) : Condition → Option Atom
  | .compare left op right => some (.compare (lexemesOf (left.tokens d)) op.symbol (lexemesOf (right.tokens d)))
  | .between term low high =>
    some (.between (lexemesOf (term.tokens d)) (lexemesOf (low.tokens d)) (lexemesOf (high.tokens d)))
  | .inValues term values _ =>
    some (.among (lexemesOf (term.tokens d)) (lexemesOf (joined comma (termTokens d values))))
  | .inSelect term select _ => some (.among (lexemesOf (term.tokens d)) (lexemesOf (select.tokens d false)))
  | .isNull term _ => some (.null (lexemesOf (term.tokens d)))
  | .exists select _ => some (.existence (lexemesOf (select.tokens d false)))
  | .constant truth => some (.compare [.word "1"] "=" [.word (if truth then "1" else "0")])
  | .and _ | .or _ | .not _ => none

/-- How tightly the text of the condition binds: conjunctions and disjunctions are written in parentheses. -/
def Condition.binding : Condition → Binding
  | .and _ | .or _ => .primary
  | .compare .. | .between .. | .constant _ | .inValues .. | .inSelect .. | .isNull .. | .exists .. | .not _ => .factor

section Lexemes

theorem lexemesOf_words (keywords : List String) : lexemesOf (words keywords) = keywords.map .word := by
  induction keywords with
  | nil => rfl
  | cons s rest ih =>
    have start : words (s :: rest) = .space :: .word s :: words rest := rfl
    rw [start, lexemesOf_cons, lexemesOf_cons, ih]
    rfl

theorem lexemesOf_parenthesized (inner : List Token) :
    lexemesOf (parenthesized inner) = enclosed (lexemesOf inner) := by
  rw [parenthesized, List.cons_append, lexemesOf_cons, lexemesOf_append]
  rfl

/-- Tidy tokens close every parenthesis that they open. -/
theorem Tidy.balanced {b : Bool} {ts : List Token} (tidy : Tidy b ts) : Balanced (lexemesOf ts) := by
  have symbol {s : String} (first : s ≠ "(") (last : s ≠ ")") : (Lexeme.symbol s).isBracket = false := by
    rw [Lexeme.isBracket, Bool.or_eq_false_iff, beq_eq_false_iff_ne, beq_eq_false_iff_ne]
    exact ⟨fun same => first (Lexeme.symbol.inj same), fun same => last (Lexeme.symbol.inj same)⟩
  induction tidy with
  | nil => exact .nil
  | @loose _ t _ kind _ ih =>
    cases t with
    | space => exact ih
    | symbol s =>
      refine .cons (symbol ?_ ?_) ih
      all_goals
        rintro rfl
        revert kind
        decide
    | word | identifier | value => cases kind
  | @tight t _ kind _ ih =>
    cases t with
    | space => cases kind
    | word | identifier => exact .cons rfl ih
    | symbol s =>
      refine .cons (symbol ?_ ?_) ih
      all_goals
        rintro rfl
        revert kind
        decide
    | value v =>
      rw [lexemesOf_cons, Token.lexemes]
      split <;> exact .cons rfl ih
  | group _ _ inside outside =>
    rw [lexemesOf_append, lexemesOf_parenthesized]
    exact .group inside outside

theorem operand_columnTokens (owner column : String) : IsOperand (lexemesOf (columnTokens owner column)) :=
  ⟨List.cons_ne_nil _ _, .cons rfl (.cons (by decide) (.cons rfl .nil))⟩

theorem operand_enclosed {ls : List Lexeme} (balanced : Balanced ls) : IsOperand (enclosed ls) := by
  refine ⟨List.cons_ne_nil _ _, ?_⟩
  rw [← List.append_nil (enclosed ls)]
  exact .group balanced .nil

/-- Every term is an operand of conditions. -/
theorem operand_term (d : Dialect) (t : Term) : IsOperand (lexemesOf (t.tokens d)) := by
  cases t with
  | column owner path => exact operand_columnTokens owner path.column
  | literal v =>
    unfold Term.tokens
    rw [lexemesOf_cons, Token.lexemes]
    split <;> exact ⟨List.cons_ne_nil _ _, .cons (by decide) .nil⟩
  | aggregate f argument distinct =>
    have inner : Tidy false ((if distinct then [.word "DISTINCT", .space] else []) ++ argument.tokens d) := by
      cases distinct with
      | false => exact tidy_term d argument
      | true => exact .tight (by decide) (tidy_space (tidy_term d argument))
    have keyword : (Lexeme.word f.keyword).isPart = true := by cases f <;> decide
    unfold Term.tokens
    rw [lexemesOf_cons, lexemesOf_parenthesized]
    exact ⟨List.cons_ne_nil _ _, .cons keyword (operand_enclosed inner.balanced).2⟩
  | subquery s =>
    unfold Term.tokens
    rw [lexemesOf_parenthesized]
    exact operand_enclosed (tidy_select d s false).balanced

theorem lexemesOf_around (left : List Token) (t : Token) (right : List Token) :
    lexemesOf (left ++ [.space, t, .space] ++ right) = lexemesOf left ++ (t.lexemes ++ lexemesOf right) := by
  simp [Token.lexemes]

/-- A term and what its value is looked for in. -/
theorem lexemesOf_membership (term inner : List Token) (negated : Bool) :
    lexemesOf (term ++ words (if negated then ["NOT", "IN"] else ["IN"]) ++ [.space] ++ parenthesized inner) =
      lexemesOf term ++
        ((if negated then [.word "NOT", .word "IN"] else [.word "IN"]) ++ enclosed (lexemesOf inner)) := by
  cases negated <;> simp [lexemesOf_words, lexemesOf_parenthesized, Token.lexemes]

end Lexemes

/-- The text of a condition that is not made of others reads as its atomic one or the negation of that. -/
theorem Condition.reads_atom {d : Dialect} {c : Condition} {a : Atom} (own : c.atom? d = some a) :
    Reads .factor (lexemesOf (c.tokens d)) (.signed c.isNegated (.atom a)) := by
  cases c with
  | compare left op right =>
    cases own
    have known : op.symbol ∈ Lexeme.signs := by cases op <;> decide
    rw [Condition.tokens, lexemesOf_around]
    exact .factor (.test (operand_term d left) (.compare known (operand_term d right)))
  | between term low high =>
    cases own
    have limits : Test (lexemesOf (term.tokens d)) _ _ := .between (operand_term d low) (operand_term d high)
    rw [Condition.tokens, wordBetween, wordBetween, lexemesOf_around, lexemesOf_around, List.append_assoc]
    exact .factor (.test (operand_term d term) limits)
  | constant truth =>
    cases own
    have number (s : String) (part : (Lexeme.word s).isPart = true) : IsOperand [.word s] :=
      ⟨List.cons_ne_nil _ _, .cons part .nil⟩
    cases truth with
    | true => exact .factor (.test (number "1" (by decide)) (.compare (by decide) (number "1" (by decide))))
    | false => exact .factor (.test (number "1" (by decide)) (.compare (by decide) (number "0" (by decide))))
  | inValues term values negated =>
    cases own
    have members := tidy_joined separates_comma (tidy_terms d values)
    rw [Condition.tokens, lexemesOf_membership]
    exact .factor (.test (operand_term d term) (.among negated members.balanced))
  | inSelect term select negated =>
    cases own
    rw [Condition.tokens, lexemesOf_membership]
    exact .factor (.test (operand_term d term) (.among negated (tidy_select d select false).balanced))
  | isNull term negated =>
    cases own
    have text : lexemesOf (words (if negated then ["IS", "NOT", "NULL"] else ["IS", "NULL"])) =
        .word "IS" :: if negated then [.word "NOT", .word "NULL"] else [.word "NULL"] := by cases negated <;> rfl
    rw [Condition.tokens, lexemesOf_append, text]
    exact .factor (.test (operand_term d term) (.null negated))
  | «exists» select negated =>
    cases own
    have query := Reads.existence (tidy_select d select false).balanced
    rw [← lexemesOf_parenthesized] at query
    cases negated with
    | false => exact .factor query
    | true => exact .not query
  | and | or | not => cases own

namespace Select

def groupTokens (d : Dialect) (s : Select) : List Token := clauseTokens ["GROUP", "BY"] comma (termTokens d s.groups)

def havingTokens (d : Dialect) (s : Select) : List Token :=
  clauseTokens ["HAVING"] (wordBetween "AND") (conditionTokens d s.havings)

/-- The text of a query, clause by clause. -/
theorem tokens_clauses (d : Dialect) (aliased : Bool) (s : Select) :
    s.tokens d aliased = s.headTokens d aliased ++ s.fromTokens d ++ s.whereTokens d ++ s.groupTokens d ++
      s.havingTokens d ++ s.endTokens d := by
  rw [tokens_eq, bodyTokens, groupTokens, havingTokens]
  simp only [List.append_assoc]

end Select

section Joins

variable {d : Dialect}

/-- What stands before the condition of a join. -/
def JoinClause.front (c : JoinClause) : List Token :=
  words [c.kind.keyword, "JOIN"] ++ [.space] ++ tableTokens c.target.entity.table c.target.name ++ words ["ON"]

theorem conditionOfJoin_eq (c? : Option Condition) : conditionOfJoin d c? = conditionTokens d c?.toList := by
  cases c? <;> rfl

namespace JoinClause

/-- The conditions of a join. -/
def items (d : Dialect) (c : JoinClause) : List (List Token) :=
  (c.link.map fun (owner, a) => linkTokens owner a c.target.name).toList ++ conditionTokens d c.condition.toList

/-- A join with conditions is written with their conjunction behind its table. -/
theorem tokens_eq {c : JoinClause} (some : c.items d ≠ []) :
    c.tokens d = c.front ++ .space :: joined (wordBetween "AND") (c.items d) := by
  obtain ⟨kind, target, link, condition⟩ := c
  have same : link.elim [] (fun (owner, a) => [linkTokens owner a target.name]) ++ conditionOfJoin d condition =
      items d ⟨kind, target, link, condition⟩ := by
    rw [items, conditionOfJoin_eq]
    cases link <;> rfl
  have front : words [kind.keyword, "JOIN"] ++ [.space] ++ tableTokens target.entity.table target.name ++
      wordBetween "ON" = JoinClause.front ⟨kind, target, link, condition⟩ ++ [.space] := by
    rw [JoinClause.front, List.append_assoc _ (words ["ON"])]
    rfl
  unfold JoinClause.tokens
  dsimp only
  rw [same, if_neg (mt List.isEmpty_iff.mp some), front, List.append_assoc]
  rfl

theorem tidy_items (d : Dialect) (c : JoinClause) : ∀ item ∈ c.items d, Tidy false item := by
  refine List.forall_mem_append.mpr ⟨fun item member => ?_, tidy_conditions d _⟩
  obtain ⟨⟨owner, a⟩, _, rfl⟩ := Option.map_eq_some_iff.mp (Option.mem_toList.mp member)
  exact tidy_linkTokens owner a c.target.name

end JoinClause

end Joins

end EntityMapper
