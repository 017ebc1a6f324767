import EntityMapper.Compile.Change
import EntityMapper.Compile.Query
import EntityMapper.Proofs.Sql.Placeholders

namespace EntityMapper

/-- A character of a word or a number. -/
def wordChar (c : Char) : Bool := c.isAlphanum || c == '-' || c == '_'

/-- A character of a comparison. -/
def signChar (c : Char) : Bool := c == '=' || c == '<' || c == '>' || c == '!'

namespace Token

/-- The text of the token ends where it ends, whatever follows: a space or a point, a comma or a star. -/
def isLoose : Token → Bool
  | space => true
  | symbol s => s == "." || s == "," || s == "*"
  | _ => false

/-- The text of the token is one piece of a statement, unless it runs into the next one: a word, a comparison, an
identifier or a value. -/
def isTight : Token → Bool
  | space => false
  | word s => s != "" && s.toList.all wordChar
  | symbol s => s != "" && s.toList.all signChar
  | identifier _ | value _ => true

end Token

/-- Tokens that are told apart in their text: nothing tight stands right behind something tight, and parentheses are
closed where they are opened. They may stand behind something tight themselves, or only behind something else. -/
inductive Tidy : Bool → List Token → Prop
  | nil {b : Bool} : Tidy b []
  | loose {b : Bool} {t : Token} {rest : List Token} : t.isLoose = true → Tidy false rest → Tidy b (t :: rest)
  | tight {t : Token} {rest : List Token} : t.isTight = true → Tidy true rest → Tidy false (t :: rest)
  | group {b : Bool} {inner rest : List Token} : Tidy false inner → Tidy false rest →
      Tidy b (parenthesized inner ++ rest)

section Tidiness

variable {b : Bool} {t : Token} {xs ys : List Token}

theorem Tidy.weaken (tidy : Tidy true xs) (b : Bool) : Tidy b xs := by
  cases tidy with
  | nil => exact .nil
  | loose kind rest => exact .loose kind rest
  | group inner rest => exact .group inner rest

theorem Tidy.append (left : Tidy b xs) (right : Tidy true ys) : Tidy b (xs ++ ys) := by
  induction left with
  | nil => exact right.weaken _
  | loose kind _ ih => exact .loose kind ih
  | tight kind _ ih => exact .tight kind ih
  | group inner _ _ ih =>
    rw [List.append_assoc]
    exact .group inner ih

theorem tidy_space (rest : Tidy false xs) : Tidy b (.space :: xs) := .loose rfl rest

theorem tidy_singleton (kind : t.isTight = true) : Tidy false [t] := .tight kind .nil

/-- Two parts with a word or a comparison between them, set off by spaces. -/
theorem Tidy.around (left : Tidy b xs) (kind : t.isTight = true) (right : Tidy false ys) :
    Tidy b (xs ++ [.space, t, .space] ++ ys) := by
  rw [List.append_assoc]
  exact left.append (tidy_space (.tight kind (tidy_space right)))

theorem tidy_words {keywords : List String} (kinds : ∀ s ∈ keywords, (Token.word s).isTight = true) :
    Tidy true (words keywords) := by
  induction keywords with
  | nil => exact .nil
  | cons s rest ih =>
    obtain ⟨own, others⟩ := List.forall_mem_cons.mp kinds
    exact tidy_space (.tight own (ih others))

theorem tidy_parenthesized (inner : Tidy false xs) : Tidy b (parenthesized xs) := by
  rw [← List.append_nil (parenthesized xs)]
  exact .group inner .nil

/-- Tokens that may stand behind something tight and end in a space. -/
def Separates (separator : List Token) : Prop := ∃ start, separator = start ++ [.space] ∧ Tidy true start

theorem separates_comma : Separates comma := ⟨[.symbol ","], rfl, .loose rfl .nil⟩

theorem separates_wordBetween (word : String) (kind : (Token.word word).isTight = true) :
    Separates (wordBetween word) :=
  ⟨[.space, .word word], rfl, tidy_space (tidy_singleton kind)⟩

theorem tidy_joined {separator : List Token} {items : List (List Token)} (separates : Separates separator)
    (tidy : ∀ item ∈ items, Tidy false item) : Tidy false (joined separator items) := by
  obtain ⟨separator, rfl, between⟩ := separates
  induction items with
  | nil => exact .nil
  | cons first rest ih =>
    obtain ⟨own, others⟩ := List.forall_mem_cons.mp tidy
    cases rest with
    | nil => rwa [joined_singleton]
    | cons second rest =>
      rw [joined_cons_cons, List.append_assoc, List.singleton_append]
      exact own.append (between.append (tidy_space (ih others)))

theorem tidy_clauseTokens (keywords : List String) {separator : List Token} {items : List (List Token)}
    (kinds : ∀ s ∈ keywords, (Token.word s).isTight = true) (separates : Separates separator)
    (tidy : ∀ item ∈ items, Tidy false item) : Tidy true (clauseTokens keywords separator items) := by
  unfold clauseTokens
  split
  · exact .nil
  · rw [List.append_assoc]
    exact (tidy_words kinds).append (tidy_space (tidy_joined separates tidy))

theorem isPlain_of_wordChar {c : Char} (char : wordChar c = true) : Dialect.isPlain c = true := by
  simp only [Dialect.isPlain, Bool.and_eq_true, bne_iff_ne]
  refine ⟨⟨⟨?_, ?_⟩, ?_⟩, ?_⟩
  all_goals
    rintro rfl
    revert char
    decide

theorem signChar_iff {c : Char} : signChar c = true ↔ c = '=' ∨ c = '<' ∨ c = '>' ∨ c = '!' := by
  simp [signChar, or_assoc]

theorem Token.isPlain_of_isTight (kind : t.isTight = true) : t.isPlain = true := by
  cases t with
  | space => cases kind
  | word s =>
    simp only [isTight, Bool.and_eq_true, List.all_eq_true] at kind
    exact List.all_eq_true.mpr fun c member => isPlain_of_wordChar (kind.2 c member)
  | symbol s =>
    simp only [isTight, Bool.and_eq_true, bne_iff_ne, List.all_eq_true, signChar_iff] at kind
    simp only [isPlain, Bool.and_eq_true, List.all_eq_true]
    refine ⟨fun c member => ?_, ?_⟩
    · rcases kind.2 c member with rfl | rfl | rfl | rfl <;> decide
    · cases text : s.toList with
      | nil => exact absurd (String.toList_eq_nil_iff.mp text) kind.1
      | cons c rest =>
        have head : (!c.isDigit) = true := by
          rcases kind.2 c (text ▸ List.mem_cons_self) with rfl | rfl | rfl | rfl <;> decide
        exact head
  | identifier | value => rfl

theorem Token.isPlain_of_isLoose (kind : t.isLoose = true) :
    t.isPlain = true ∧ t.isWord = false ∧ t.isValue = false := by
  cases t with
  | space => exact ⟨rfl, rfl, rfl⟩
  | symbol s =>
    simp only [isLoose, Bool.or_eq_true, beq_iff_eq, or_assoc] at kind
    refine ⟨?_, rfl, rfl⟩
    rcases kind with rfl | rfl | rfl <;> decide
  | word | identifier | value => cases kind

theorem Clean.weaken (clean : Clean true xs) (b : Bool) : Clean b xs := by
  cases xs with
  | nil => exact True.intro
  | cons t rest => exact ⟨clean.1, fun _ => clean.2.1 rfl, clean.2.2⟩

/-- Tidy tokens are clean: a word behind a value would be something tight behind something tight. -/
theorem Tidy.clean_append (tidy : Tidy b xs) (right : Clean true ys) : Clean b (xs ++ ys) := by
  induction tidy generalizing ys with
  | nil => exact right.weaken _
  | loose kind _ ih =>
    obtain ⟨plain, word, value⟩ := Token.isPlain_of_isLoose kind
    exact ⟨plain, fun _ => word, value ▸ ih right⟩
  | tight kind _ ih =>
    exact ⟨Token.isPlain_of_isTight kind, (fun behind => nomatch behind), (ih right).weaken _⟩
  | @group b inner rest _ _ inside behind =>
    have closed : Clean true (.symbol ")" :: (rest ++ ys)) := ⟨by decide, fun _ => rfl, behind right⟩
    have text : parenthesized inner ++ rest ++ ys = .symbol "(" :: (inner ++ .symbol ")" :: (rest ++ ys)) := by
      simp only [parenthesized, List.cons_append, List.append_assoc, List.nil_append]
    rw [text]
    exact ⟨by decide, fun _ => rfl, inside closed⟩

theorem Tidy.clean (tidy : Tidy b xs) : Clean b xs := by
  have clean : Clean b (xs ++ []) := tidy.clean_append True.intro
  rwa [List.append_nil] at clean

end Tidiness

/-- A property that tokens have if they are made of parts that have it. -/
structure Composes (P : List Token → Prop) : Prop where
  nil : P []
  append : ∀ {xs ys}, P xs → P ys → P (xs ++ ys)

/-- The words before the bounds of a page. -/
def boundKeywords : List (List String) :=
  [["LIMIT"], ["OFFSET"], ["LIMIT", "-1", "OFFSET"], ["LIMIT", "18446744073709551615", "OFFSET"]]

namespace Composes

variable {P : List Token → Prop} (composes : Composes P)

include composes

theorem flatMap {α : Type} {f : α → List Token} (own : ∀ x, P (f x)) (xs : List α) : P (xs.flatMap f) := by
  induction xs with
  | nil => exact composes.nil
  | cons x rest ih =>
    rw [List.flatMap_cons]
    exact composes.append (own x) ih

/-- A page is given by a bound, or by two of them. -/
theorem paging (bounds : ∀ keywords ∈ boundKeywords, ∀ n, P (boundTokens keywords n)) (d : Dialect)
    (limit offset : Option Nat) : P (pagingTokens d limit offset) := by
  have optional (keyword : String) (known : [keyword] ∈ boundKeywords) (n : Option Nat) :
      P (n.elim [] (boundTokens [keyword])) := by
    cases n with
    | none => exact composes.nil
    | some n => exact bounds [keyword] known n
  unfold pagingTokens
  split
  · exact bounds _ (by decide) _
  · exact bounds _ (by decide) _
  · exact composes.append (optional "LIMIT" (by decide) limit) (optional "OFFSET" (by decide) offset)

end Composes

/-- A column with its label has what the column has, if labels do not take it away. -/
theorem forall_aliasedColumns {P : List Token → Prop} {columns : List (List Token)} (own : ∀ column ∈ columns, P column)
    (labelled : ∀ column label, P column → P (column ++ wordBetween "AS" ++ [.identifier label])) (aliased : Bool)
    (start : Nat) : ∀ column ∈ aliasedColumns aliased start columns, P column := by
  induction columns generalizing start with
  | nil => exact fun _ member => absurd member List.not_mem_nil
  | cons column rest ih =>
    obtain ⟨first, others⟩ := List.forall_mem_cons.mp own
    refine List.forall_mem_cons.mpr ⟨?_, ih others (start + 1)⟩
    split
    · exact labelled column _ first
    · exact first

theorem composes_tidy : Composes (Tidy true) := ⟨.nil, .append⟩

theorem tidy_columnTokens (owner column : String) : Tidy false (columnTokens owner column) :=
  .tight rfl (.loose (by decide) (tidy_singleton rfl))

theorem tidy_tableTokens (table name : String) : Tidy false (tableTokens table name) :=
  (tidy_singleton (t := .identifier table) rfl).around (t := .word "AS") (by decide) (tidy_singleton rfl)

theorem tidy_linkTokens (owner : String) (a : Association) (target : String) :
    Tidy false (linkTokens owner a target) :=
  (tidy_columnTokens owner a.ownerColumn).around (by decide) (tidy_columnTokens target a.targetColumn)

theorem tidy_columns (a : Alias) : ∀ column ∈ a.columns, Tidy false column := by
  intro column member
  obtain ⟨name, _, rfl⟩ := List.mem_map.mp member
  exact tidy_columnTokens a.name name

theorem tidy_generatedJoin (j : GeneratedJoin) : Tidy true j.tokens := by
  unfold GeneratedJoin.tokens wordBetween
  rw [List.append_assoc, List.append_assoc, List.append_assoc]
  refine (tidy_words (by decide)).append ?_
  rw [List.singleton_append, ← List.append_assoc]
  exact tidy_space ((tidy_tableTokens _ _).around (by decide) (tidy_linkTokens _ _ _))

theorem tidy_sourceTokens (sources : List Alias) : Tidy false (sourceTokens sources) := by
  refine tidy_joined ⟨_, rfl, tidy_words (by decide)⟩ fun item member => ?_
  obtain ⟨a, _, rfl⟩ := List.mem_map.mp member
  exact tidy_tableTokens _ _

/-- What a query reads from, given the tokens of its joins. -/
theorem tidy_from (sources : List Alias) {joins : List Token} (tidy : Tidy true joins)
    (generated : List GeneratedJoin) :
    Tidy true (words ["FROM"] ++ [.space] ++ sourceTokens sources ++ joins ++
      generated.flatMap GeneratedJoin.tokens) := by
  have start : Tidy true (words ["FROM"] ++ [.space] ++ sourceTokens sources) := by
    rw [List.append_assoc]
    exact (tidy_words (by decide)).append (tidy_space (tidy_sourceTokens sources))
  exact (start.append tidy).append (composes_tidy.flatMap tidy_generatedJoin generated)

/-- The keys of an ordered term are tidy where the term is. -/
theorem tidy_orderingTokens (d : Dialect) {term : List Token} (tidy : Tidy false term) (direction : Direction)
    (nulls : Option NullPlacement) : ∀ key ∈ orderingTokens d term direction nulls, Tidy false key := by
  have word : ∀ s ∈ [direction.keyword], (Token.word s).isTight = true := by cases direction <;> decide
  have key : Tidy false (term ++ words [direction.keyword]) := tidy.append (tidy_words word)
  have isNull : Tidy false (term ++ words ["IS", "NULL"]) := tidy.append (tidy_words (by decide))
  unfold orderingTokens
  split
  · exact List.forall_mem_singleton.mpr key
  case h_2 placement =>
    split
    · refine List.forall_mem_singleton.mpr (key.append (tidy_words ?_))
      cases placement <;> decide
    · split
      · exact List.forall_mem_cons.mpr
          ⟨isNull.append (tidy_words (by decide)), List.forall_mem_singleton.mpr key⟩
      · exact List.forall_mem_cons.mpr ⟨isNull, List.forall_mem_singleton.mpr key⟩

theorem tidy_pagingTokens (d : Dialect) (limit offset : Option Nat) : Tidy true (pagingTokens d limit offset) := by
  have kinds : ∀ keywords ∈ boundKeywords, ∀ s ∈ keywords, (Token.word s).isTight = true := by decide
  refine composes_tidy.paging (fun keywords known n => ?_) d limit offset
  exact (tidy_words (kinds keywords known)).append (tidy_space (tidy_singleton rfl))

/-- A term and a list or a query in parentheses that its value is looked for in. -/
theorem tidy_membership {term inner : List Token} (tidy : Tidy false term) (body : Tidy false inner)
    (negated : Bool) :
    Tidy false (term ++ words (if negated then ["NOT", "IN"] else ["IN"]) ++ [.space] ++ parenthesized inner) := by
  have kinds : ∀ s ∈ if negated then ["NOT", "IN"] else ["IN"], (Token.word s).isTight = true := by
    cases negated <;> decide
  rw [List.append_assoc, List.append_assoc]
  exact tidy.append ((tidy_words kinds).append (tidy_space (tidy_parenthesized body)))

mutual

theorem tidy_term (d : Dialect) : ∀ t : Term, Tidy false (t.tokens d)
  | .column owner path => tidy_columnTokens owner path.column
  | .literal v => tidy_singleton rfl
  | .aggregate f argument distinct => by
    have inner := tidy_term d argument
    have keyword : (Token.word f.keyword).isTight = true := by cases f <;> decide
    refine .tight keyword (tidy_parenthesized ?_)
    cases distinct with
    | false => exact inner
    | true => exact .tight (by decide) (tidy_space inner)
  | .subquery s => tidy_parenthesized ((tidy_select d s false).weaken false)
termination_by structural t => t

theorem tidy_condition (d : Dialect) : ∀ c : Condition, Tidy false (c.tokens d)
  | .compare left op right => by
    have sign : (Token.symbol op.symbol).isTight = true := by cases op <;> decide
    exact (tidy_term d left).around sign (tidy_term d right)
  | .between term low high =>
    ((tidy_term d term).around (by decide) (tidy_term d low)).around (by decide) (tidy_term d high)
  | .constant truth => by
    refine (tidy_singleton (t := .word "1") (by decide)).around (by decide) (tidy_singleton ?_)
    cases truth <;> decide
  | .inValues term values negated =>
    tidy_membership (tidy_term d term) (tidy_joined separates_comma (tidy_terms d values)) negated
  | .inSelect term select negated =>
    tidy_membership (tidy_term d term) ((tidy_select d select false).weaken false) negated
  | .isNull term negated => by
    refine (tidy_term d term).append (tidy_words ?_)
    cases negated <;> decide
  | .exists select negated => by
    have query : Tidy false (parenthesized (select.tokens d false)) :=
      tidy_parenthesized ((tidy_select d select false).weaken false)
    have existence : Tidy false ([.word "EXISTS", .space] ++ parenthesized (select.tokens d false)) :=
      .tight (by decide) (tidy_space query)
    rw [Condition.tokens, List.append_assoc]
    cases negated with
    | false => exact existence
    | true => exact .tight (by decide) (tidy_space existence)
  | .and items =>
    tidy_parenthesized (tidy_joined (separates_wordBetween "AND" (by decide)) (tidy_conditions d items))
  | .or items =>
    tidy_parenthesized (tidy_joined (separates_wordBetween "OR" (by decide)) (tidy_conditions d items))
  | .not inner => by
    have own := tidy_condition d inner
    unfold Condition.tokens
    split
    · exact .tight (by decide) (tidy_space own)
    · exact .tight (by decide) (tidy_space own)
    · exact .tight (by decide) (tidy_space (tidy_parenthesized own))
termination_by structural c => c

theorem tidy_output (d : Dialect) : ∀ o : Output, ∀ column ∈ o.columns d, Tidy false column
  | .term t => List.forall_mem_singleton.mpr (tidy_term d t)
  | .entity a => tidy_columns a
termination_by structural o => o

theorem tidy_joinClause (d : Dialect) : ∀ j : JoinClause, Tidy true (j.tokens d)
  | ⟨kind, target, link, condition⟩ => by
    have conditions := tidy_conditionOfJoin d condition
    have related : ∀ item ∈ link.elim [] fun (owner, a) => [linkTokens owner a target.name], Tidy false item := by
      cases link with
      | none => exact fun _ member => absurd member List.not_mem_nil
      | some link => exact List.forall_mem_singleton.mpr (tidy_linkTokens _ _ _)
    have items := List.forall_mem_append.mpr ⟨related, conditions⟩
    have table := tidy_tableTokens target.entity.table target.name
    have keyword : ∀ s ∈ [kind.keyword, "JOIN"], (Token.word s).isTight = true := by cases kind <;> decide
    unfold JoinClause.tokens
    dsimp only
    split
    · rw [List.append_assoc]
      exact (tidy_words (by decide)).append (tidy_space table)
    · rw [List.append_assoc, List.append_assoc, List.append_assoc]
      refine (tidy_words keyword).append ?_
      rw [List.singleton_append, ← List.append_assoc]
      exact tidy_space (table.around (by decide) (tidy_joined (separates_wordBetween "AND" (by decide)) items))
termination_by structural j => j

theorem tidy_sortKey (d : Dialect) : ∀ k : SortKey, ∀ key ∈ k.tokens d, Tidy false key
  | ⟨term, direction, nulls⟩ => tidy_orderingTokens d (tidy_term d term) direction nulls
termination_by structural k => k

theorem tidy_select (d : Dialect) : ∀ (s : Select) (aliased : Bool), Tidy true (s.tokens d aliased)
  | ⟨distinct, outputs, fetches, sources, joins, generated, filters, groups, havings, orderings, limit, offset⟩,
      aliased => by
    have columns : ∀ column ∈ aliasedColumns aliased 0 (outputColumns d outputs ++ fetches.flatMap (·.target.columns)),
        Tidy false column := by
      refine forall_aliasedColumns (List.forall_mem_append.mpr ⟨tidy_outputs d outputs, fun column member => ?_⟩)
        (fun _ _ own => own.around (by decide) (tidy_singleton rfl)) aliased 0
      obtain ⟨f, _, inside⟩ := List.mem_flatMap.mp member
      exact tidy_columns f.target column inside
    have selected : Tidy true (words (if distinct then ["SELECT", "DISTINCT"] else ["SELECT"])) := by
      refine tidy_words ?_
      cases distinct <;> decide
    have source := tidy_from sources (tidy_joins d joins) generated
    have filter := tidy_clauseTokens ["WHERE"] (by decide) (separates_wordBetween "AND" (by decide))
      (tidy_conditions d filters)
    have group := tidy_clauseTokens ["GROUP", "BY"] (by decide) separates_comma (tidy_terms d groups)
    have having := tidy_clauseTokens ["HAVING"] (by decide) (separates_wordBetween "AND" (by decide))
      (tidy_conditions d havings)
    have order := tidy_clauseTokens ["ORDER", "BY"] (by decide) separates_comma (tidy_sortKeys d orderings)
    unfold Select.tokens
    dsimp only
    refine (((((Tidy.append ?_ source).append filter).append group).append having).append order).append
      (tidy_pagingTokens d limit offset)
    rw [List.append_assoc]
    refine selected.append (tidy_space ?_)
    split
    · exact tidy_singleton (by decide)
    · exact tidy_joined separates_comma columns
termination_by structural s => s

theorem tidy_conditionOfJoin (d : Dialect) : ∀ c : Option Condition, ∀ item ∈ conditionOfJoin d c, Tidy false item
  | none => fun _ member => absurd member List.not_mem_nil
  | some c => List.forall_mem_singleton.mpr (tidy_condition d c)
termination_by structural c => c

theorem tidy_terms (d : Dialect) : ∀ ts : List Term, ∀ item ∈ termTokens d ts, Tidy false item
  | [] => fun _ member => absurd member List.not_mem_nil
  | t :: rest => List.forall_mem_cons.mpr ⟨tidy_term d t, tidy_terms d rest⟩
termination_by structural ts => ts

theorem tidy_conditions (d : Dialect) : ∀ cs : List Condition, ∀ item ∈ conditionTokens d cs, Tidy false item
  | [] => fun _ member => absurd member List.not_mem_nil
  | c :: rest => List.forall_mem_cons.mpr ⟨tidy_condition d c, tidy_conditions d rest⟩
termination_by structural cs => cs

theorem tidy_outputs (d : Dialect) : ∀ os : List Output, ∀ column ∈ outputColumns d os, Tidy false column
  | [] => fun _ member => absurd member List.not_mem_nil
  | o :: rest => List.forall_mem_append.mpr ⟨tidy_output d o, tidy_outputs d rest⟩
termination_by structural os => os

theorem tidy_joins (d : Dialect) : ∀ js : List JoinClause, Tidy true (joinTokens d js)
  | [] => .nil
  | j :: rest => (tidy_joinClause d j).append (tidy_joins d rest)
termination_by structural js => js

theorem tidy_sortKeys (d : Dialect) : ∀ ks : List SortKey, ∀ key ∈ sortTokens d ks, Tidy false key
  | [] => fun _ member => absurd member List.not_mem_nil
  | k :: rest => List.forall_mem_append.mpr ⟨tidy_sortKey d k, tidy_sortKeys d rest⟩
termination_by structural ks => ks

end

theorem tidy_count (d : Dialect) (q : CountQuery) : Tidy true (q.tokens d) := by
  have word : Tidy true countWord :=
    (tidy_words (by decide)).append (tidy_parenthesized (.loose (by decide) .nil))
  cases q with
  | sources s =>
    have restriction := tidy_clauseTokens ["WHERE"] (by decide) (separates_wordBetween "AND" (by decide))
      (tidy_conditions d s.filters)
    exact (word.append (tidy_from s.sources (tidy_joins d s.joins) s.generated)).append restriction
  | derived s =>
    have table : Tidy false (parenthesized (s.tokens d true)) :=
      tidy_parenthesized ((tidy_select d s true).weaken false)
    have name : Tidy false [.identifier "grappelli_count"] := tidy_singleton rfl
    have named := table.around (t := .word "AS") (by decide) name
    unfold CountQuery.tokens wordBetween
    dsimp only
    rw [List.append_assoc, List.append_assoc, List.append_assoc, List.append_assoc]
    refine word.append ((tidy_words (by decide)).append ?_)
    rw [List.singleton_append, ← List.append_assoc]
    exact tidy_space named

theorem tidy_assignment (column : String) (v : Value) : Tidy false (assignmentTokens column v) :=
  (tidy_singleton (t := .identifier column) rfl).around (t := .symbol "=") (by decide) (tidy_singleton rfl)

theorem tidy_insert (d : Dialect) (e : Entity) (assignments : Assignments) (returning : Bool) :
    Tidy true (insertTokens d e assignments returning) := by
  have key : Tidy true (if returning && d.returnsKeys then
      words ["RETURNING"] ++ [.space, .identifier e.primaryKey.column] else []) := by
    split
    · exact (tidy_words (by decide)).append (tidy_space (tidy_singleton rfl))
    · exact .nil
  have none : Tidy false (parenthesized []) := tidy_parenthesized .nil
  unfold insertTokens
  rw [List.append_assoc, List.append_assoc]
  refine (tidy_words (by decide)).append ?_
  simp only [List.cons_append, List.nil_append]
  refine tidy_space (.tight rfl (tidy_space (Tidy.append ?_ key)))
  split
  · split
    · exact none.around (t := .word "VALUES") (by decide) none
    · exact .tight (by decide) (tidy_space (tidy_singleton (by decide)))
  · refine (tidy_parenthesized (tidy_joined separates_comma ?_)).around (by decide)
      (tidy_parenthesized (tidy_joined separates_comma ?_))
    · exact List.forall_mem_map.mpr fun _ _ => tidy_singleton rfl
    · exact List.forall_mem_map.mpr fun _ _ => tidy_singleton rfl

theorem tidy_update (e : Entity) (assignments : Assignments) (id : Value) :
    Tidy true (updateTokens e assignments id) := by
  have table : Tidy true [.space, .identifier e.table] := tidy_space (tidy_singleton rfl)
  have key := tidy_assignment e.primaryKey.column id
  unfold updateTokens
  simp only [List.append_assoc]
  refine (tidy_words (by decide)).append (table.append ((tidy_words (by decide)).append (tidy_space ?_)))
  refine (tidy_joined separates_comma ?_).append ((tidy_words (by decide)).append (tidy_space key))
  exact List.forall_mem_map.mpr fun assignment _ => tidy_assignment assignment.1 assignment.2

/-- Every statement is clean. -/
theorem clean_select (d : Dialect) (s : Select) (aliased : Bool) : Clean true (s.tokens d aliased) :=
  (tidy_select d s aliased).clean

theorem clean_count (d : Dialect) (q : CountQuery) : Clean false (q.tokens d) := (tidy_count d q).clean.weaken false

theorem clean_insert (d : Dialect) (e : Entity) (assignments : Assignments) (returning : Bool) :
    Clean false (insertTokens d e assignments returning) := (tidy_insert d e assignments returning).clean.weaken false

theorem clean_update (e : Entity) (assignments : Assignments) (id : Value) :
    Clean false (updateTokens e assignments id) := (tidy_update e assignments id).clean.weaken false

end EntityMapper
