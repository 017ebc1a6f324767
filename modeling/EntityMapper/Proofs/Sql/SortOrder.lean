import Mathlib.Data.List.Infix
import Mathlib.Order.Compare
import EntityMapper.Sql.Render

namespace EntityMapper

/-- The meaning of the words that tokens end with, if these are among the given endings, and the tokens before them. -/
def readEnding {α : Type} (key : List Token) : List (List String × α) → List Token × Option α
  | [] => (key, none)
  | (keywords, meaning) :: others =>
    match key.dropSuffix? (words keywords) with
    | some front => (front, some meaning)
    | none => readEnding key others

/-- What a sort key asks a store for: to order rows by an operand or by whether it is null, in a direction and, if it
tells one, with a place for nulls. -/
structure RowKey where
  operand : List Token
  asksNull : Bool
  direction : Direction
  nulls : Option NullPlacement

def nullEndings : List (List String × NullPlacement) := [(["NULLS", "FIRST"], .first), (["NULLS", "LAST"], .last)]

def directionEndings : List (List String × Direction) := [(["ASC"], .ascending), (["DESC"], .descending)]

def questionEndings : List (List String × Unit) := [(["IS", "NULL"], ())]

/-- Without a word for it the direction is ascending. -/
def RowKey.read (key : List Token) : RowKey :=
  let (directed, nulls) := readEnding key nullEndings
  let (asked, direction) := readEnding directed directionEndings
  let (operand, question) := readEnding asked questionEndings
  ⟨operand, question.isSome, direction.getD .ascending, nulls⟩

section Reading

variable {α : Type} {key front : List Token} {keywords : List String} {keyword : String}

theorem getLast_words (ends : keywords.getLast? = some keyword) :
    (front ++ words keywords).getLast? = some (.word keyword) := by
  obtain ⟨start, rfl⟩ := List.getLast?_eq_some_iff.mp ends
  simp [words]

/-- Tokens that end with another word than the given one. -/
theorem getLast_words_ne {other : String} (ends : keywords.getLast? = some keyword) (apart : keyword ≠ other) :
    (front ++ words keywords).getLast? ≠ some (.word other) := by
  rw [getLast_words ends]
  exact fun same => apart (Token.word.inj (Option.some.inj same))

variable {endings : List (List String × α)} {meaning : α}

theorem readEnding_found : readEnding (front ++ words keywords) ((keywords, meaning) :: endings) =
    (front, some meaning) := by
  have found : (front ++ words keywords).dropSuffix? (words keywords) = some front :=
    List.dropSuffix?_eq_some_iff.mpr ⟨words keywords, rfl, BEq.rfl⟩
  rw [readEnding, found]

theorem readEnding_other (ends : keywords.getLast? = some keyword) (other : key.getLast? ≠ some (.word keyword)) :
    readEnding key ((keywords, meaning) :: endings) = readEnding key endings := by
  have none : key.dropSuffix? (words keywords) = none := by
    refine Option.eq_none_iff_forall_ne_some.mpr fun front found => other ?_
    obtain ⟨ending, rfl, same⟩ := List.dropSuffix?_eq_some_iff.mp found
    rw [eq_of_beq same, getLast_words ends]
  rw [readEnding, none]

theorem readEnding_unplaced (first : key.getLast? ≠ some (.word "FIRST"))
    (last : key.getLast? ≠ some (.word "LAST")) : readEnding key nullEndings = (key, none) := by
  rw [nullEndings, readEnding_other rfl first, readEnding_other rfl last, readEnding]

theorem readEnding_placed (front : List Token) (placement : NullPlacement) :
    readEnding (front ++ words ["NULLS", placement.keyword]) nullEndings = (front, some placement) := by
  cases placement with
  | first => exact readEnding_found
  | last => exact (readEnding_other rfl (getLast_words_ne rfl (by decide))).trans readEnding_found

theorem readEnding_undirected (asc : key.getLast? ≠ some (.word "ASC")) (desc : key.getLast? ≠ some (.word "DESC")) :
    readEnding key directionEndings = (key, none) := by
  rw [directionEndings, readEnding_other rfl asc, readEnding_other rfl desc, readEnding]

theorem readEnding_directed (front : List Token) (direction : Direction) :
    readEnding (front ++ words [direction.keyword]) directionEndings = (front, some direction) := by
  cases direction with
  | ascending => exact readEnding_found
  | descending => exact (readEnding_other rfl (getLast_words_ne rfl (by decide))).trans readEnding_found

end Reading

namespace RowKey

variable {term key directed asked operand : List Token} {nulls : Option NullPlacement}

theorem read_eq {direction : Option Direction} {question : Option Unit}
    (placed : readEnding key nullEndings = (directed, nulls))
    (turned : readEnding directed directionEndings = (asked, direction))
    (questioned : readEnding asked questionEndings = (operand, question)) :
    read key = ⟨operand, question.isSome, direction.getD .ascending, nulls⟩ := by
  rw [read, placed]
  dsimp only
  rw [turned]
  dsimp only
  rw [questioned]

theorem read_question (term : List Token) : read (term ++ words ["IS", "NULL"]) = ⟨term, true, .ascending, none⟩ := by
  have other {word : String} (apart : "NULL" ≠ word) : (term ++ words ["IS", "NULL"]).getLast? ≠ some (.word word) :=
    getLast_words_ne rfl apart
  exact read_eq (readEnding_unplaced (other (by decide)) (other (by decide)))
    (readEnding_undirected (other (by decide)) (other (by decide))) readEnding_found

theorem readEnding_turned (front : List Token) (direction : Direction) :
    readEnding (front ++ words [direction.keyword]) nullEndings = (front ++ words [direction.keyword], none) := by
  refine readEnding_unplaced ?_ ?_
  all_goals exact getLast_words_ne rfl (by cases direction <;> decide)

theorem read_question_descending (term : List Token) :
    read (term ++ words ["IS", "NULL"] ++ words ["DESC"]) = ⟨term, true, .descending, none⟩ :=
  read_eq (readEnding_turned _ .descending) (readEnding_directed _ .descending) readEnding_found

variable (unquestioned : term.getLast? ≠ some (.word "NULL"))

include unquestioned

theorem readEnding_unquestioned : readEnding term questionEndings = (term, none) := by
  rw [questionEndings, readEnding_other rfl unquestioned, readEnding]

theorem read_unplaced (direction : Direction) :
    read (term ++ words [direction.keyword]) = ⟨term, false, direction, none⟩ :=
  read_eq (readEnding_turned _ direction) (readEnding_directed _ direction) (readEnding_unquestioned unquestioned)

theorem read_placed (direction : Direction) (placement : NullPlacement) :
    read (term ++ words [direction.keyword] ++ words ["NULLS", placement.keyword]) =
      ⟨term, false, direction, some placement⟩ :=
  read_eq (readEnding_placed _ placement) (readEnding_directed _ direction) (readEnding_unquestioned unquestioned)

end RowKey

/-- No term ends in a word. -/
theorem getLast_term_ne_word (d : Dialect) (t : Term) (word : String) :
    (t.tokens d).getLast? ≠ some (.word word) := by
  have closing (inner : List Token) : (parenthesized inner).getLast? = some (.symbol ")") :=
    List.getLast?_concat
  cases t with
  | column owner path => simp [Term.tokens, columnTokens]
  | literal v => simp [Term.tokens]
  | aggregate f argument distinct => simp [Term.tokens, List.getLast?_cons, closing]
  | subquery s => simp [Term.tokens, closing]

def Direction.applied : Direction → Ordering → Ordering
  | .ascending, o => o
  | .descending, o => o.swap

/-- Where a null comes, seen from a value. -/
def NullPlacement.ofNull : NullPlacement → Ordering
  | .first => .lt
  | .last => .gt

/-- What a store answers to the question whether a value is null. -/
def nullity {V : Type} : Option V → Nat
  | some _ => 0
  | none => 1

/-- How a store sorts rows. It knows the value of a term in a row, in whichever dialect the term is written, and compares
values. Nulls come first or last in a direction for which no place is told. -/
structure RowOrder (V Row : Type) where
  value : Dialect → Row → List Token → Option V
  value_term : ∀ d d' row (t : Term), value d row (t.tokens d) = value d' row (t.tokens d')
  compare : V → V → Ordering
  nulls : Direction → NullPlacement

namespace RowOrder

variable {V Row : Type} (o : RowOrder V Row)

def compareValues (direction : Direction) (placement : NullPlacement) : Option V → Option V → Ordering
  | some x, some y => direction.applied (o.compare x y)
  | none, some _ => placement.ofNull
  | some _, none => placement.ofNull.swap
  | none, none => .eq

def compareKey (d : Dialect) (k : RowKey) (a b : Row) : Ordering :=
  if k.asksNull then
    k.direction.applied (Ord.compare (nullity (o.value d a k.operand)) (nullity (o.value d b k.operand)))
  else
    o.compareValues k.direction (k.nulls.getD (o.nulls k.direction)) (o.value d a k.operand) (o.value d b k.operand)

/-- Rows are compared by each key among those that are equal by the keys before it. -/
def compareRows (d : Dialect) (keys : List (List Token)) (a b : Row) : Ordering :=
  keys.foldr (fun key rest => (o.compareKey d (.read key) a b).then rest) .eq

/-- The value of a term in a row. -/
def termValue (row : Row) (t : Term) : Option V := o.value .ansi row (t.tokens .ansi)

/-- Two rows by the order of a term: by its values in a direction, and with nulls where they are to come. -/
def compareTerm (a b : Row) : SortKey → Ordering
  | ⟨term, direction, nulls⟩ =>
    o.compareValues direction (nulls.getD (o.nulls direction)) (o.termValue a term) (o.termValue b term)

theorem compareRows_append (d : Dialect) (xs ys : List (List Token)) (a b : Row) :
    o.compareRows d (xs ++ ys) a b = (o.compareRows d xs a b).then (o.compareRows d ys a b) := by
  induction xs with
  | nil => rfl
  | cons key rest ih =>
    change (o.compareKey d (.read key) a b).then (o.compareRows d (rest ++ ys) a b) = _
    rw [ih, ← Ordering.then_assoc]
    rfl

theorem compareRows_singleton (d : Dialect) (key : List Token) (a b : Row) :
    o.compareRows d [key] a b = o.compareKey d (.read key) a b := Ordering.then_eq

/-- The direction in which the question whether values are null has to be sorted for a place of nulls. -/
def questionDirection : NullPlacement → Direction
  | .first => .descending
  | .last => .ascending

/-- Sorting by the question puts nulls in their place and leaves the others to their values. Nulls are equal among
themselves, so no other place for them matters behind it. -/
theorem compareValues_questioned (direction : Direction) (placement other : NullPlacement) (x y : Option V) :
    ((questionDirection placement).applied (Ord.compare (nullity x) (nullity y))).then
      (o.compareValues direction other x y) = o.compareValues direction placement x y := by
  cases placement <;> cases x <;> cases y <;> rfl

section Keys

variable (d : Dialect) (a b : Row) (term : Term)

theorem value_eq (row : Row) : o.value d row (term.tokens d) = o.termValue row term := o.value_term d .ansi row term

theorem compareKey_term (direction : Direction) (nulls : Option NullPlacement) :
    o.compareKey d ⟨term.tokens d, false, direction, nulls⟩ a b = o.compareTerm a b ⟨term, direction, nulls⟩ := by
  rw [compareKey, if_neg Bool.false_ne_true, value_eq, value_eq]
  rfl

theorem compareKey_question (direction : Direction) : o.compareKey d ⟨term.tokens d, true, direction, none⟩ a b =
    direction.applied (Ord.compare (nullity (o.termValue a term)) (nullity (o.termValue b term))) := by
  rw [compareKey, if_pos rfl, value_eq, value_eq]

/-- A question in front of a key without a place for nulls does what the place does. -/
theorem compareRows_questioned (direction : Direction) (placement : NullPlacement) {question key : List Token}
    (asks : RowKey.read question = ⟨term.tokens d, true, questionDirection placement, none⟩)
    (sorts : RowKey.read key = ⟨term.tokens d, false, direction, none⟩) :
    o.compareRows d [question, key] a b = o.compareTerm a b ⟨term, direction, some placement⟩ := by
  rw [← List.singleton_append, compareRows_append, compareRows_singleton, compareRows_singleton, asks, sorts,
    compareKey_question, compareKey_term]
  exact o.compareValues_questioned direction placement _ _ _

end Keys

/-- The keys of one ordered term sort rows by it, with or without words for the place of nulls. -/
theorem compareRows_sortKey (d : Dialect) (k : SortKey) (a b : Row) :
    o.compareRows d (k.tokens d) a b = o.compareTerm a b k := by
  obtain ⟨term, direction, nulls⟩ := k
  have unquestioned := getLast_term_ne_word d term "NULL"
  have unplaced := RowKey.read_unplaced unquestioned direction
  unfold SortKey.tokens orderingTokens
  cases nulls with
  | none =>
    dsimp only
    rw [compareRows_singleton, unplaced, compareKey_term]
  | some placement =>
    dsimp only
    split
    case isTrue => rw [compareRows_singleton, RowKey.read_placed unquestioned, compareKey_term]
    case isFalse =>
      cases placement with
      | first =>
        exact o.compareRows_questioned d a b term direction .first (RowKey.read_question_descending _) unplaced
      | last => exact o.compareRows_questioned d a b term direction .last (RowKey.read_question _) unplaced

/-- The sort keys of a list of ordered terms sort rows by these one after the other. -/
theorem compareRows_sortTokens (d : Dialect) (keys : List SortKey) (a b : Row) :
    o.compareRows d (sortTokens d keys) a b = keys.foldr (fun k rest => (o.compareTerm a b k).then rest) .eq := by
  induction keys with
  | nil => rfl
  | cons k rest ih => rw [sortTokens, compareRows_append, compareRows_sortKey, ih, List.foldr_cons]

/-- Rows are sorted alike by dialects with words for the place of nulls and by dialects without them. -/
theorem compareRows_dialects (native emulated : Dialect) (keys : List SortKey) (a b : Row) :
    o.compareRows emulated (sortTokens emulated keys) a b = o.compareRows native (sortTokens native keys) a b := by
  rw [compareRows_sortTokens, compareRows_sortTokens]

/-- Rows of numbers under the names of columns. Nulls are smaller than all numbers. -/
def ofColumns : RowOrder Int (String → Option Int) where
  value _ row
    | [.identifier _, .symbol _, .identifier column] => row column
    | _ => none
  value_term d d' row t := by cases t <;> rfl
  compare := Ord.compare
  nulls
    | .ascending => .first
    | .descending => .last

/-- The first row comes first for its rank, since both have no score. -/
theorem compareRows_dialects_scores :
    let column (name : String) : Term := .column "p" ⟨"p", "player", [], name, name, .integer⟩
    let keys : List SortKey := [⟨column "score", .ascending, some .last⟩, ⟨column "rank", .descending, some .first⟩]
    let first (name : String) : Option Int := if name = "rank" then some 2 else none
    let second (name : String) : Option Int := if name = "rank" then some 1 else none
    ofColumns.compareRows .mysql (sortTokens .mysql keys) first second = .lt ∧
      ofColumns.compareRows .postgres (sortTokens .postgres keys) first second = .lt := by
  intro column keys first second
  rw [ofColumns.compareRows_dialects .postgres .mysql keys first second, and_self]
  rfl

end RowOrder

end EntityMapper
