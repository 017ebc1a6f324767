import Mathlib.Algebra.GroupWithZero.Nat
import EntityMapper.Proofs.Compile.Layouts
import EntityMapper.Proofs.Sql.Conditions

namespace EntityMapper

/-- What the last lexeme waits for: an item of the list that it opens, the query whose existence it asks for, or nothing
in particular. -/
inductive Waiting where
  | item
  | existence
  | nothing
  deriving DecidableEq, Repr

/-- The innermost parentheses around a reader: whether a query in them may have one column only, and whether its select
list is being read. -/
structure Nest where
  single : Bool
  listing : Bool
  deriving DecidableEq, Repr

namespace Lexeme

def waiting (l : Lexeme) : Waiting :=
  if l = word "SELECT" ∨ l = word "DISTINCT" then .item else if l = word "EXISTS" then .existence else .nothing

/-- The lexeme ends a list or goes on with it. -/
def isBetween (l : Lexeme) : Bool := l == closing || l == symbol "," || l == word "FROM"

end Lexeme

def Nest.behind (n : Nest) (l : Lexeme) : Nest :=
  if l = .word "SELECT" then { n with listing := true } else if l = .word "FROM" then { n with listing := false } else n

/-- A reader of lexemes: the parentheses that are open, what the last lexeme waits for, and whether everything had its
shape so far. -/
structure Scanner where
  here : Nest
  around : List Nest
  waiting : Waiting
  shaped : Bool
  deriving DecidableEq, Repr

namespace Scanner

/-- No list ends before its first item, and only one item is listed where one column is wanted. -/
def fits (s : Scanner) (l : Lexeme) : Bool :=
  !(l.isBetween && s.waiting == .item) && !(l == .symbol "," && s.here.single && s.here.listing)

/-- A query in parentheses may have one column only, unless it is asked for existence. -/
def read (s : Scanner) (l : Lexeme) : Scanner :=
  if l = .opening then ⟨⟨s.waiting != .existence, false⟩, s.here :: s.around, .item, s.shaped⟩
  else if l = .closing then ⟨s.around.headD s.here, s.around.tail, .nothing, s.shaped && s.fits l⟩
  else ⟨s.here.behind l, s.around, l.waiting, s.shaped && s.fits l⟩

end Scanner

/-- No parentheses and no select list in the text are empty, and a query in parentheses has one column, unless it is asked
for existence. -/
def Dialect.wellShaped (d : Dialect) (sql : String) : Bool :=
  ((d.lexemes sql.toList).foldl Scanner.read ⟨⟨false, false⟩, [], .nothing, true⟩).shaped

/-- Only the query that is asked for existence may have several columns. -/
example : Dialect.ansi.wellShaped "SELECT a, b FROM t WHERE EXISTS (SELECT a, b FROM t) AND a IN (SELECT a FROM t)" ∧
    ¬Dialect.ansi.wellShaped "SELECT a FROM t WHERE a = (SELECT a, b FROM t)" ∧
    ¬Dialect.ansi.wellShaped "SELECT a FROM t WHERE (a = 1 AND ())" := by
  decide +kernel

/-- The lexeme neither opens nor closes nor goes on with anything. -/
def Lexeme.isPassive (l : Lexeme) : Bool := l != .opening && !l.isBetween && l.waiting == .nothing

/-- Reading the lexemes behind anything but the word for existence leads from one place to another in the same
parentheses, and they have their shape exactly if the truth value says so. Something is read at least. -/
def Scans (here : Nest) (ls : List Lexeme) (shaped : Bool) (there : Nest) : Prop :=
  ∀ around waiting before, waiting ≠ .existence →
    ls.foldl Scanner.read ⟨here, around, waiting, before⟩ = ⟨there, around, .nothing, before && shaped⟩

/-- The same where nothing is waited for, and nothing may be read. -/
def ScansOn (here : Nest) (ls : List Lexeme) (shaped : Bool) (there : Nest) : Prop :=
  ∀ around before,
    ls.foldl Scanner.read ⟨here, around, .nothing, before⟩ = ⟨there, around, .nothing, before && shaped⟩

section Scanning

variable {here middle there : Nest} {ls ms : List Lexeme} {l : Lexeme} {a b : Bool}

theorem Scanner.read_passive (passive : l.isPassive) (s : Scanner) :
    s.read l = ⟨s.here, s.around, .nothing, s.shaped⟩ := by
  simp only [Lexeme.isPassive, Bool.and_eq_true, bne_iff_ne, Bool.not_eq_true', beq_iff_eq] at passive
  obtain ⟨⟨unopened, apart⟩, content⟩ := passive
  have query : l ≠ .word "SELECT" := fun same => by simp [same, Lexeme.waiting] at content
  have others := apart
  simp only [Lexeme.isBetween, Bool.or_eq_false_iff, beq_eq_false_iff_ne] at others
  obtain ⟨⟨unclosed, comma⟩, source⟩ := others
  rw [read, if_neg unopened, if_neg unclosed, Nest.behind, if_neg query, if_neg source, content, fits, apart,
    beq_eq_false_iff_ne.mpr comma]
  simp

namespace Scans

theorem on (scans : Scans here ls a there) : ScansOn here ls a there := fun around before =>
  scans around .nothing before nofun

theorem append (first : Scans here ls a middle) (second : ScansOn middle ms b there) :
    Scans here (ls ++ ms) (a && b) there := by
  intro around waiting before other
  rw [List.foldl_append, first around waiting before other, second, Bool.and_assoc]

theorem passive (own : l.isPassive) : Scans here [l] true here := by
  intro around waiting before _
  rw [List.foldl_cons, Scanner.read_passive own, List.foldl_nil, Bool.and_true]

end Scans

namespace ScansOn

theorem nil : ScansOn here [] true here := fun around before => by rw [List.foldl_nil, Bool.and_true]

theorem append (first : ScansOn here ls a middle) (second : ScansOn middle ms b there) :
    ScansOn here (ls ++ ms) (a && b) there := by
  intro around before
  rw [List.foldl_append, first, second, Bool.and_assoc]

theorem passive (kinds : ls.all Lexeme.isPassive) : ScansOn here ls true here := by
  induction ls with
  | nil => exact nil
  | cons l rest ih =>
    obtain ⟨own, others⟩ := Bool.and_eq_true_iff.mp kinds
    exact (Scans.passive own).on.append (ih others)

/-- A comma may not stand between the columns of a query that may have one only. -/
theorem comma : ScansOn here [.symbol ","] (!(here.single && here.listing)) here := by
  intro around before
  obtain ⟨single, listing⟩ := here
  cases single <;> cases listing <;> rfl

/-- The list of columns ends where the sources begin. -/
theorem source {single listing : Bool} : ScansOn ⟨single, listing⟩ [.word "FROM"] true ⟨single, false⟩ := by
  intro around before
  rw [Bool.and_true]
  cases before <;> rfl

end ScansOn

namespace Scans

theorem passives (kinds : ls.all Lexeme.isPassive) (some : ls ≠ []) : Scans here ls true here := by
  cases ls with
  | nil => exact absurd rfl some
  | cons l rest =>
    obtain ⟨own, others⟩ := Bool.and_eq_true_iff.mp kinds
    exact (passive own).append (.passive others)

/-- Parentheses with something in them. What is waited for before them decides what a query in them may be. -/
theorem foldl_enclosed (waiting : Waiting) (inner : Scans ⟨waiting != .existence, false⟩ ls a there) (around : List Nest)
    (before : Bool) : (enclosed ls).foldl Scanner.read ⟨here, around, waiting, before⟩ =
      ⟨here, around, .nothing, before && a⟩ := by
  have closed : Scanner.read ⟨there, here :: around, .nothing, before && a⟩ .closing =
      ⟨here, around, .nothing, before && a⟩ := by
    rw [Scanner.read, if_neg (by decide), if_pos rfl]
    cases before && a <;> rfl
  rw [enclosed, List.foldl_cons, Scanner.read, if_pos rfl, List.foldl_append, inner _ _ _ (by decide), List.foldl_cons,
    closed, List.foldl_nil]

theorem enclosed (inner : Scans ⟨true, false⟩ ls a there) : Scans here (enclosed ls) a here := by
  intro around waiting before other
  have single : (waiting != .existence) = true := bne_iff_ne.mpr other
  exact foldl_enclosed waiting (single ▸ inner) around before

/-- Parentheses have no shape with nothing in them. -/
theorem empty : Scans here (EntityMapper.enclosed []) false here := by
  intro around waiting before _
  cases before <;> rfl

theorem distinct (inner : Scans here ls a there) : Scans here (.word "DISTINCT" :: ls) a there := by
  intro around waiting before _
  have read : Scanner.read ⟨here, around, waiting, before⟩ (.word "DISTINCT") = ⟨here, around, .item, before⟩ := by
    cases before <;> rfl
  rw [List.foldl_cons, read, inner _ _ _ (by decide)]

/-- A query that is asked for existence may have several columns. -/
theorem existence (inner : Scans ⟨false, false⟩ ls a there) :
    Scans here (.word "EXISTS" :: EntityMapper.enclosed ls) a here := by
  intro around waiting before _
  have asked : Scanner.read ⟨here, around, waiting, before⟩ (.word "EXISTS") = ⟨here, around, .existence, before⟩ := by
    cases before <;> rfl
  rw [List.foldl_cons, asked]
  exact foldl_enclosed .existence inner around before

end Scans

/-- Items that are read at one place each, all of which have their shape exactly if the truth value says so. -/
inductive ScansEach (here : Nest) : List (List Token) → Bool → Prop
  | nil : ScansEach here [] true
  | cons {item : List Token} {rest : List (List Token)} {a b : Bool} : Scans here (lexemesOf item) a here →
      ScansEach here rest b → ScansEach here (item :: rest) (a && b)

namespace ScansEach

variable {items more : List (List Token)}

theorem singleton {item : List Token} (scans : Scans here (lexemesOf item) a here) : ScansEach here [item] a := by
  rw [← Bool.and_true a]
  exact .cons scans .nil

theorem append (first : ScansEach here items a) (second : ScansEach here more b) :
    ScansEach here (items ++ more) (a && b) := by
  induction first with
  | nil => exact second
  | cons own _ ih =>
    rw [Bool.and_assoc]
    exact .cons own ih

theorem passive (some : ∀ item ∈ items, lexemesOf item ≠ [] ∧ (lexemesOf item).all Lexeme.isPassive) :
    ScansEach here items true := by
  induction items with
  | nil => exact .nil
  | cons item rest ih =>
    obtain ⟨own, others⟩ := List.forall_mem_cons.mp some
    exact .cons (.passives own.2 own.1) (ih others)

/-- Items in a row have their shape if each has and the separator may stand between them, where it does. -/
theorem joined {separator : List Token} (each : ScansEach here items a)
    (between : ScansOn here (lexemesOf separator) b here) (some : items ≠ []) :
    Scans here (lexemesOf (joined separator items)) (a && (b || items.length ≤ 1)) here := by
  induction each with
  | nil => exact absurd rfl some
  | @cons item rest own more first later ih =>
    cases rest with
    | nil =>
      cases later
      simpa [joined_singleton] using first
    | cons second rest =>
      have others := ih (List.cons_ne_nil _ _)
      rw [joined_cons_cons, lexemesOf_append, lexemesOf_append]
      have whole := first.append (between.append others.on)
      have several : ¬(item :: second :: rest).length ≤ 1 := by simp
      rw [decide_eq_false several, Bool.or_false]
      cases b <;> simpa using whole

end ScansEach

theorem ScansOn.words (keywords : List String) (passive : (keywords.map Lexeme.word).all Lexeme.isPassive) :
    ScansOn here (lexemesOf (words keywords)) true here := by
  rw [lexemesOf_words]
  exact .passive passive

/-- A clause has its shape if its items have, and a comma between them is none of the select list's. -/
theorem scansOn_clauseTokens (keywords : List String) {separator : List Token} {items : List (List Token)}
    (passive : (keywords.map Lexeme.word).all Lexeme.isPassive) (between : ScansOn here (lexemesOf separator) true here)
    (each : ScansEach here items a) : ScansOn here (lexemesOf (clauseTokens keywords separator items)) a here := by
  cases items with
  | nil =>
    cases each
    exact .nil
  | cons item rest =>
    have listed := each.joined between (List.cons_ne_nil _ _)
    rw [Bool.true_or, Bool.and_true] at listed
    have front : ScansOn here (lexemesOf (EntityMapper.words keywords ++ [.space])) true here := by
      rw [lexemesOf_append]
      exact (ScansOn.words keywords passive).append .nil
    rw [clauseTokens, if_neg (by simp), lexemesOf_append]
    exact front.append listed.on

theorem scans_columnTokens (owner column : String) : Scans here (lexemesOf (columnTokens owner column)) true here :=
  .passives rfl (List.cons_ne_nil _ _)

theorem scans_linkTokens (owner : String) (association : Association) (target : String) :
    Scans here (lexemesOf (linkTokens owner association target)) true here :=
  .passives rfl (List.cons_ne_nil _ _)

theorem scansOn_on {keywords : List String} (passive : (keywords.map Lexeme.word).all Lexeme.isPassive)
    (table name : String) {items : List (List Token)} (each : ScansEach here items a) (some : items ≠ []) :
    ScansOn here (lexemesOf (words keywords ++ [.space] ++ (tableTokens table name ++ wordBetween "ON" ++
      joined (wordBetween "AND") items))) a here := by
  have listed := each.joined (.passive rfl : ScansOn here (lexemesOf (wordBetween "AND")) true here) some
  rw [Bool.true_or, Bool.and_true] at listed
  have front : ScansOn here (lexemesOf (words keywords ++ [.space])) true here := by
    rw [lexemesOf_append]
    exact (ScansOn.words keywords passive).append .nil
  have related : ScansOn here (lexemesOf (tableTokens table name ++ wordBetween "ON")) true here := .passive rfl
  rw [lexemesOf_append (words keywords ++ [Token.space]), lexemesOf_append (tableTokens table name ++ wordBetween "ON")]
  exact front.append (related.append listed.on)

/-- What is scanned without an effect is so part by part. -/
theorem composes_scansOn : Composes fun ts => ScansOn here (lexemesOf ts) true here where
  nil := .nil
  append first second := by
    rw [lexemesOf_append]
    exact first.append second

theorem scansOn_generatedJoin (j : GeneratedJoin) : ScansOn here (lexemesOf j.tokens) true here := .passive rfl

theorem scansOn_sources (sources : List Alias) : ScansOn here (lexemesOf (sourceTokens sources)) true here := by
  cases sources with
  | nil => exact .nil
  | cons a rest =>
    have each : ScansEach here ((a :: rest).map fun a => tableTokens a.entity.table a.name) true :=
      .passive (List.forall_mem_map.mpr fun _ _ => ⟨List.cons_ne_nil _ _, rfl⟩)
    have between : ScansOn here (lexemesOf (words ["CROSS", "JOIN"] ++ [.space])) true here := .passive rfl
    exact (each.joined between (List.cons_ne_nil _ _)).on

theorem scansOn_from (sources : List Alias) (single listing : Bool) {joins : List Token}
    (scans : ScansOn ⟨single, false⟩ (lexemesOf joins) a ⟨single, false⟩) (generated : List GeneratedJoin) :
    ScansOn ⟨single, listing⟩ (lexemesOf (words ["FROM"] ++ [.space] ++ sourceTokens sources ++ joins ++
      generated.flatMap GeneratedJoin.tokens)) a ⟨single, false⟩ := by
  have covered : ScansOn ⟨single, false⟩ (lexemesOf (generated.flatMap GeneratedJoin.tokens)) true ⟨single, false⟩ :=
    composes_scansOn.flatMap scansOn_generatedJoin generated
  have start : ScansOn ⟨single, listing⟩ (lexemesOf (words ["FROM"] ++ [.space])) true ⟨single, false⟩ := .source
  have whole := ((start.append (scansOn_sources sources)).append scans).append covered
  rw [Bool.and_true, Bool.and_true, Bool.true_and] at whole
  rwa [lexemesOf_append, lexemesOf_append, lexemesOf_append]

theorem scansEach_orderingTokens (d : Dialect) {term : List Token} (scans : Scans here (lexemesOf term) a here)
    (direction : Direction) (nulls : Option NullPlacement) :
    ScansEach here (orderingTokens d term direction nulls) a := by
  have behind {more : List Token} (passive : (lexemesOf more).all Lexeme.isPassive) :
      Scans here (lexemesOf (term ++ more)) a here := by
    rw [lexemesOf_append, ← Bool.and_true a]
    exact scans.append (.passive passive)
  have key : Scans here (lexemesOf (term ++ words [direction.keyword])) a here := behind (by cases direction <;> rfl)
  unfold orderingTokens
  split
  · exact .singleton key
  case h_2 placement =>
    dsimp only
    split
    · rw [List.append_assoc]
      exact .singleton (behind (by cases direction <;> cases placement <;> rfl))
    · split
      · rw [List.append_assoc, ← Bool.and_self a]
        exact .cons (behind rfl) (.singleton key)
      · rw [← Bool.and_self a]
        exact .cons (behind rfl) (.singleton key)

theorem scansOn_pagingTokens (d : Dialect) (limit offset : Option Nat) :
    ScansOn here (lexemesOf (pagingTokens d limit offset)) true here := by
  have passive : ∀ keywords ∈ boundKeywords, (keywords.map Lexeme.word).all Lexeme.isPassive := by decide
  refine composes_scansOn.paging (fun keywords known n => ?_) d limit offset
  rw [boundTokens, lexemesOf_append]
  exact (ScansOn.words keywords (passive keywords known)).append (.passive rfl)

end Scanning

def Output.width : Output → ℕ
  | .term _ => 1
  | .entity a => a.entity.columnCount

/-- How many columns a query selects, with those that are fetched. -/
def Select.width (s : Select) : ℕ :=
  (s.outputs.map Output.width).sum + (s.fetches.map (·.target.entity.columnCount)).sum

mutual

/-- No list that is written in the term is empty, and every query in it has at most one column, unless it is asked for
existence. -/
def Term.shaped : Term → Bool
  | .column .. | .literal _ => true
  | .aggregate _ argument _ => argument.shaped
  | .subquery s => s.width ≤ 1 && s.shaped
termination_by structural t => t

def Condition.shaped : Condition → Bool
  | .compare left _ right => left.shaped && right.shaped
  | .between term low high => term.shaped && low.shaped && high.shaped
  | .constant _ => true
  | .inValues term values _ => term.shaped && !values.isEmpty && termsShaped values
  | .inSelect term select _ => term.shaped && select.width ≤ 1 && select.shaped
  | .isNull term _ => term.shaped
  | .exists select _ => select.shaped
  | .and items | .or items => !items.isEmpty && conditionsShaped items
  | .not inner => inner.shaped
termination_by structural c => c

def Output.shaped : Output → Bool
  | .term t => t.shaped
  | .entity _ => true
termination_by structural o => o

def JoinClause.shaped : JoinClause → Bool
  | ⟨_, _, _, condition⟩ => optionShaped condition
termination_by structural j => j

def SortKey.shaped : SortKey → Bool
  | ⟨term, _, _⟩ => term.shaped
termination_by structural k => k

def Select.shaped : Select → Bool
  | ⟨_, outputs, _, _, joins, _, filters, groups, havings, orderings, _, _⟩ =>
    outputsShaped outputs && joinsShaped joins && conditionsShaped filters && termsShaped groups &&
      conditionsShaped havings && keysShaped orderings
termination_by structural s => s

def optionShaped : Option Condition → Bool
  | none => true
  | some c => c.shaped
termination_by structural c => c

def termsShaped : List Term → Bool
  | [] => true
  | t :: rest => t.shaped && termsShaped rest
termination_by structural ts => ts

def conditionsShaped : List Condition → Bool
  | [] => true
  | c :: rest => c.shaped && conditionsShaped rest
termination_by structural cs => cs

def outputsShaped : List Output → Bool
  | [] => true
  | o :: rest => o.shaped && outputsShaped rest
termination_by structural os => os

def joinsShaped : List JoinClause → Bool
  | [] => true
  | j :: rest => j.shaped && joinsShaped rest
termination_by structural js => js

def keysShaped : List SortKey → Bool
  | [] => true
  | k :: rest => k.shaped && keysShaped rest
termination_by structural ks => ks

end

theorem sum_widths (d : Dialect) (os : List Output) : (outputColumns d os).length = (os.map Output.width).sum := by
  induction os with
  | nil => rfl
  | cons o rest ih =>
    have own : (o.columns d).length = o.width := by
      cases o with
      | term t => rfl
      | entity a => exact a.length_columns
    rw [outputColumns, List.length_append, own, ih, List.map_cons, List.sum_cons]

theorem Select.length_selectList (d : Dialect) (s : Select) : (s.selectList d).length = s.width := by
  rw [selectList, List.length_append, sum_widths, List.length_flatMap, width]
  simp only [Alias.length_columns]

section Rendered

variable {here : Nest} {a : Bool}

/-- A list in parentheses has its shape if there is something in it and all of that has. -/
theorem Scans.listed {separator : List Token} {items : List (List Token)} (each : ScansEach ⟨true, false⟩ items a)
    (between : ScansOn ⟨true, false⟩ (lexemesOf separator) true ⟨true, false⟩) :
    Scans here (lexemesOf (parenthesized (joined separator items))) (!items.isEmpty && a) here := by
  rw [lexemesOf_parenthesized]
  cases items with
  | nil => exact .empty
  | cons item rest =>
    have listed := each.joined between (List.cons_ne_nil _ _)
    rw [Bool.true_or, Bool.and_true] at listed
    exact .enclosed listed

/-- A select list has its shape if its columns have and there are not too many. -/
theorem scans_selectList (distinct single listing : Bool) {columns : List (List Token)}
    (each : ScansEach ⟨single, true⟩ columns a) :
    Scans ⟨single, listing⟩ (lexemesOf (words (if distinct then ["SELECT", "DISTINCT"] else ["SELECT"]) ++ [.space] ++
      (if columns.isEmpty then [.word "1"] else joined comma (aliasedColumns false 0 columns))))
      (a && (!single || columns.length ≤ 1)) ⟨single, true⟩ := by
  intro around waiting before other
  have begun : (lexemesOf (words (if distinct then ["SELECT", "DISTINCT"] else ["SELECT"]) ++ [.space])).foldl
      Scanner.read ⟨⟨single, listing⟩, around, waiting, before⟩ = ⟨⟨single, true⟩, around, .item, before⟩ := by
    cases distinct <;> cases before <;> rfl
  have list : Scans ⟨single, true⟩
      (lexemesOf (if columns.isEmpty then [.word "1"] else joined comma (aliasedColumns false 0 columns)))
      (a && (!single || columns.length ≤ 1)) ⟨single, true⟩ := by
    cases columns with
    | nil =>
      cases each
      have one : Scans ⟨single, true⟩ [.word "1"] true ⟨single, true⟩ := .passive rfl
      rw [List.length_nil, decide_eq_true (Nat.zero_le 1), Bool.or_true]
      exact one
    | cons column rest =>
      rw [if_neg (by simp), aliasedColumns_false]
      have between : ScansOn ⟨single, true⟩ (lexemesOf comma) (!(single && true)) ⟨single, true⟩ := .comma
      rw [Bool.and_true] at between
      exact each.joined between (List.cons_ne_nil _ _)
  rw [lexemesOf_append, List.foldl_append, begun, list _ _ _ (by decide)]

theorem isEmpty_conditionTokens (d : Dialect) (cs : List Condition) : (conditionTokens d cs).isEmpty = cs.isEmpty := by
  cases cs <;> rfl

theorem isEmpty_termTokens (d : Dialect) (ts : List Term) : (termTokens d ts).isEmpty = ts.isEmpty := by
  cases ts <;> rfl

mutual

theorem scans_term (d : Dialect) : ∀ (t : Term) (here : Nest), Scans here (lexemesOf (t.tokens d)) t.shaped here
  | .column owner path, _ => scans_columnTokens owner path.column
  | .literal v, _ => .passives (by cases v <;> rfl) (by cases v <;> exact List.cons_ne_nil _ _)
  | .aggregate f argument distinct, here => by
    have inner := scans_term d argument ⟨true, false⟩
    have argued : Scans ⟨true, false⟩
        (lexemesOf ((if distinct then [.word "DISTINCT", .space] else []) ++ argument.tokens d)) argument.shaped
        ⟨true, false⟩ := by
      cases distinct with
      | false => exact inner
      | true => exact inner.distinct
    have name : Scans here [.word f.keyword] true here := .passive (by cases f <;> rfl)
    unfold Term.tokens
    rw [lexemesOf_cons, lexemesOf_parenthesized]
    exact name.append argued.enclosed.on
  | .subquery s, here => by
    have rows := scans_select d s true false
    unfold Term.tokens
    rw [lexemesOf_parenthesized]
    exact .enclosed rows
termination_by structural t => t

theorem scans_condition (d : Dialect) : ∀ (c : Condition) (here : Nest),
    Scans here (lexemesOf (c.tokens d)) c.shaped here
  | .compare left op right, here => by
    have before := scans_term d left here
    have after := scans_term d right here
    have sign : ScansOn here (lexemesOf [.space, .symbol op.symbol, .space]) true here := .passive (by cases op <;> rfl)
    unfold Condition.tokens
    rw [lexemesOf_append, lexemesOf_append, List.append_assoc]
    exact before.append (sign.append after.on)
  | .between term low high, here => by
    have value := scans_term d term here
    have least := scans_term d low here
    have greatest := scans_term d high here
    have word (s : String) (passive : (lexemesOf (wordBetween s)).all Lexeme.isPassive) :
        ScansOn here (lexemesOf (wordBetween s)) true here := .passive passive
    unfold Condition.tokens Condition.shaped
    rw [lexemesOf_append, lexemesOf_append, lexemesOf_append, lexemesOf_append]
    have limited := (value.append (word "BETWEEN" rfl)).append least.on
    have whole := (limited.append (word "AND" rfl)).append greatest.on
    rwa [Bool.and_true, Bool.and_true] at whole
  | .constant truth, _ => .passives (by cases truth <;> rfl) (by cases truth <;> exact List.cons_ne_nil _ _)
  | .inValues term values negated, here => by
    have value := scans_term d term here
    have members := scans_terms d values ⟨true, false⟩
    have word : ScansOn here (if negated then [.word "NOT", .word "IN"] else [.word "IN"]) true here :=
      .passive (by cases negated <;> rfl)
    have list : Scans here (enclosed (lexemesOf (joined comma (termTokens d values))))
        (!values.isEmpty && termsShaped values) here := by
      rw [← lexemesOf_parenthesized, ← isEmpty_termTokens d]
      exact .listed members .comma
    unfold Condition.tokens Condition.shaped
    rw [lexemesOf_membership, Bool.and_assoc]
    exact value.append (word.append list.on)
  | .inSelect term select negated, here => by
    have value := scans_term d term here
    have rows := scans_select d select true false
    have word : ScansOn here (if negated then [.word "NOT", .word "IN"] else [.word "IN"]) true here :=
      .passive (by cases negated <;> rfl)
    unfold Condition.tokens Condition.shaped
    rw [lexemesOf_membership, Bool.and_assoc]
    exact value.append (word.append rows.enclosed.on)
  | .isNull term negated, here => by
    have value := scans_term d term here
    have words : ScansOn here (lexemesOf (words (if negated then ["IS", "NOT", "NULL"] else ["IS", "NULL"]))) true here :=
      .passive (by cases negated <;> rfl)
    have whole := value.append words
    unfold Condition.tokens Condition.shaped
    rwa [lexemesOf_append, ← Bool.and_true term.shaped]
  | .exists select negated, here => by
    have rows := scans_select d select false false
    have asked : Scans here (.word "EXISTS" :: enclosed (lexemesOf (select.tokens d false))) select.shaped here :=
      .existence rows
    unfold Condition.tokens Condition.shaped
    rw [lexemesOf_append, lexemesOf_parenthesized]
    cases negated with
    | false => exact asked
    | true =>
      have negation : Scans here [.word "NOT"] true here := .passive rfl
      exact negation.append asked.on
  | .and items, here => by
    have each := scans_conditions d items ⟨true, false⟩
    unfold Condition.tokens Condition.shaped
    rw [← isEmpty_conditionTokens d]
    exact .listed each (.passive rfl)
  | .or items, here => by
    have each := scans_conditions d items ⟨true, false⟩
    unfold Condition.tokens Condition.shaped
    rw [← isEmpty_conditionTokens d]
    exact .listed each (.passive rfl)
  | .not inner, here => by
    have own := scans_condition d inner
    have negation : Scans here [.word "NOT"] true here := .passive rfl
    unfold Condition.tokens Condition.shaped
    split
    · rw [lexemesOf_append]
      exact negation.append (own here).on
    · rw [lexemesOf_append]
      exact negation.append (own here).on
    · rw [lexemesOf_append, lexemesOf_parenthesized]
      exact negation.append (own _).enclosed.on
termination_by structural c => c

theorem scansEach_output (d : Dialect) : ∀ (o : Output) (here : Nest), ScansEach here (o.columns d) o.shaped
  | .term t, here => .singleton (scans_term d t here)
  | .entity _, _ => .passive (List.forall_mem_map.mpr fun _ _ => ⟨List.cons_ne_nil _ _, rfl⟩)
termination_by structural o => o

theorem scansOn_joinClause (d : Dialect) : ∀ (j : JoinClause) (here : Nest),
    ScansOn here (lexemesOf (j.tokens d)) j.shaped here
  | ⟨kind, target, link, condition⟩, here => by
    have conditions := scansEach_conditionOfJoin d condition here
    have related : ScansEach here (link.elim [] fun (owner, a) => [linkTokens owner a target.name]) true := by
      cases link with
      | none => exact .nil
      | some link => exact .singleton (scans_linkTokens _ _ _)
    have each := related.append conditions
    rw [Bool.true_and] at each
    unfold JoinClause.tokens JoinClause.shaped
    dsimp only
    split
    case isTrue none =>
      rw [List.isEmpty_iff.mp none] at each
      generalize optionShaped condition = shaped at each
      cases each
      exact .passive rfl
    case isFalse filled =>
      have passive : ([kind.keyword, "JOIN"].map Lexeme.word).all Lexeme.isPassive := by cases kind <;> rfl
      have on := scansOn_on passive target.entity.table target.name each (fun none => filled (List.isEmpty_iff.mpr none))
      simpa only [List.append_assoc] using on
termination_by structural j => j

theorem scansEach_sortKey (d : Dialect) : ∀ (k : SortKey) (here : Nest), ScansEach here (k.tokens d) k.shaped
  | ⟨term, direction, nulls⟩, here => scansEach_orderingTokens d (scans_term d term here) direction nulls
termination_by structural k => k

/-- A query ends behind its select list. -/
theorem scans_select (d : Dialect) : ∀ (s : Select) (single listing : Bool),
    Scans ⟨single, listing⟩ (lexemesOf (s.tokens d false)) ((!single || s.width ≤ 1) && s.shaped) ⟨single, false⟩
  | ⟨distinct, outputs, fetches, sources, joins, generated, filters, groups, havings, orderings, limit, offset⟩,
      single, listing => by
    have fetched : ScansEach ⟨single, true⟩ (fetches.flatMap (·.target.columns)) true := by
      refine .passive fun column member => ?_
      obtain ⟨f, _, inside⟩ := List.mem_flatMap.mp member
      obtain ⟨name, _, rfl⟩ := List.mem_map.mp inside
      exact ⟨List.cons_ne_nil _ _, rfl⟩
    have head := scans_selectList distinct single listing ((scansEach_outputs d outputs ⟨single, true⟩).append fetched)
    have width := Select.length_selectList d
      ⟨distinct, outputs, fetches, sources, joins, generated, filters, groups, havings, orderings, limit, offset⟩
    rw [Select.selectList] at width
    dsimp only at width
    rw [width] at head
    have source := scansOn_from sources single true (scansOn_joins d joins ⟨single, false⟩) generated
    have between : ScansOn ⟨single, false⟩ (lexemesOf comma) (!(single && false)) ⟨single, false⟩ := .comma
    rw [Bool.and_false] at between
    have filter := scansOn_clauseTokens ["WHERE"] rfl (.passive rfl : ScansOn _ (lexemesOf (wordBetween "AND")) true _)
      (scans_conditions d filters ⟨single, false⟩)
    have group := scansOn_clauseTokens ["GROUP", "BY"] rfl between (scans_terms d groups ⟨single, false⟩)
    have having := scansOn_clauseTokens ["HAVING"] rfl (.passive rfl : ScansOn _ (lexemesOf (wordBetween "AND")) true _)
      (scans_conditions d havings ⟨single, false⟩)
    have order := scansOn_clauseTokens ["ORDER", "BY"] rfl between (scansEach_sortKeys d orderings ⟨single, false⟩)
    have whole := (((((head.append source).append filter).append group).append having).append order).append
      (scansOn_pagingTokens d limit offset)
    unfold Select.tokens Select.shaped
    dsimp only
    rw [lexemesOf_append, lexemesOf_append, lexemesOf_append, lexemesOf_append, lexemesOf_append, lexemesOf_append]
    convert whole using 1
    simp only [Bool.and_true, Bool.and_assoc]
    exact Bool.and_left_comm _ _ _
termination_by structural s => s

theorem scansEach_conditionOfJoin (d : Dialect) : ∀ (c : Option Condition) (here : Nest),
    ScansEach here (conditionOfJoin d c) (optionShaped c)
  | none, _ => .nil
  | some c, here => .singleton (scans_condition d c here)
termination_by structural c => c

theorem scans_terms (d : Dialect) : ∀ (ts : List Term) (here : Nest), ScansEach here (termTokens d ts) (termsShaped ts)
  | [], _ => .nil
  | t :: rest, here => .cons (scans_term d t here) (scans_terms d rest here)
termination_by structural ts => ts

theorem scans_conditions (d : Dialect) : ∀ (cs : List Condition) (here : Nest),
    ScansEach here (conditionTokens d cs) (conditionsShaped cs)
  | [], _ => .nil
  | c :: rest, here => .cons (scans_condition d c here) (scans_conditions d rest here)
termination_by structural cs => cs

theorem scansEach_outputs (d : Dialect) : ∀ (os : List Output) (here : Nest),
    ScansEach here (outputColumns d os) (outputsShaped os)
  | [], _ => .nil
  | o :: rest, here => (scansEach_output d o here).append (scansEach_outputs d rest here)
termination_by structural os => os

theorem scansOn_joins (d : Dialect) : ∀ (js : List JoinClause) (here : Nest),
    ScansOn here (lexemesOf (joinTokens d js)) (joinsShaped js) here
  | [], _ => .nil
  | j :: rest, here => by
    have own := scansOn_joinClause d j here
    have others := scansOn_joins d rest here
    unfold joinTokens joinsShaped
    rw [lexemesOf_append]
    exact own.append others
termination_by structural js => js

theorem scansEach_sortKeys (d : Dialect) : ∀ (ks : List SortKey) (here : Nest),
    ScansEach here (sortTokens d ks) (keysShaped ks)
  | [], _ => .nil
  | k :: rest, here => (scansEach_sortKey d k here).append (scansEach_sortKeys d rest here)
termination_by structural ks => ks

end

/-- The text of a query is well shaped exactly if the query is. -/
theorem wellShaped_select (d : Dialect) (s : Select) :
    d.wellShaped (Statement.ofTokens d (s.tokens d false)).sql = s.shaped := by
  rw [Dialect.wellShaped, Statement.lexemes_ofTokens (tidy_select d s false),
    scans_select d s false false _ _ _ (by decide)]
  rfl

end Rendered

end EntityMapper
