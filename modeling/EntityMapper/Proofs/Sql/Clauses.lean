import EntityMapper.Compile.Query
import EntityMapper.Proofs.Sql.Placeholders

namespace EntityMapper

theorem repr_injective : Function.Injective Nat.repr := by
  intro m n same
  have digits : Nat.toDigits 10 m = Nat.toDigits 10 n := by rw [← Nat.toList_repr, ← Nat.toList_repr, same]
  have read := congrArg (Nat.ofDigitChars 10 · 0) digits
  simpa only [Nat.ofDigitChars_toDigits (b := 10) (by decide) (by decide)] using read

/-- The name of a column of a derived table. -/
def derivedName (index : Nat) : String := s!"c{index}"

theorem derivedName_injective : Function.Injective derivedName :=
  fun _ _ same => repr_injective ((String.append_right_inj "c").mp same)

theorem aliasedColumns_false (columns : List (List Token)) (start : Nat) :
    aliasedColumns false start columns = columns := by
  induction columns generalizing start with
  | nil => rfl
  | cons column rest ih =>
    rw [aliasedColumns, ih]
    rfl

/-- The columns of a derived table are named in order. -/
theorem aliasedColumns_true (columns : List (List Token)) (start : Nat) : aliasedColumns true start columns =
    columns.mapIdx fun i column => column ++ wordBetween "AS" ++ [.identifier (derivedName (start + i))] := by
  induction columns generalizing start with
  | nil => rfl
  | cons column rest ih =>
    rw [aliasedColumns, ih, List.mapIdx_cons]
    simp only [Nat.add_assoc, Nat.add_comm 1]
    rfl

namespace Select

/-- The columns of the select list: those of its items, then those of what is fetched. -/
def selectList (d : Dialect) (s : Select) : List (List Token) :=
  outputColumns d s.outputs ++ s.fetches.flatMap (·.target.columns)

def headTokens (d : Dialect) (aliased : Bool) (s : Select) : List Token :=
  words (if s.distinct then ["SELECT", "DISTINCT"] else ["SELECT"]) ++ [.space] ++
    if (s.selectList d).isEmpty then [.word "1"] else joined comma (aliasedColumns aliased 0 (s.selectList d))

/-- A query from its sources to its conditions on groups. -/
def bodyTokens (d : Dialect) (s : Select) : List Token :=
  s.fromTokens d ++ s.whereTokens d ++ clauseTokens ["GROUP", "BY"] comma (termTokens d s.groups) ++
    clauseTokens ["HAVING"] (wordBetween "AND") (conditionTokens d s.havings)

def endTokens (d : Dialect) (s : Select) : List Token :=
  clauseTokens ["ORDER", "BY"] comma (sortTokens d s.orderings) ++ pagingTokens d s.limit s.offset

theorem tokens_eq (d : Dialect) (aliased : Bool) (s : Select) :
    s.tokens d aliased = s.headTokens d aliased ++ s.bodyTokens d ++ s.endTokens d := by
  cases s
  simp only [tokens, headTokens, bodyTokens, endTokens, selectList, fromTokens, whereTokens, List.append_assoc]
  rfl

end Select

/-- The text of the token ends with something after which a space is written. -/
def Token.closes : Token → Bool
  | space => false
  | word s | symbol s => s.toList.getLast?.any fun c => c != ' ' && c != '('
  | identifier _ | value _ => true

/-- The text of the tokens ends with something after which a space is written. -/
def Closed (ts : List Token) : Prop := ts.getLast?.any Token.closes = true

section Closed

theorem closed_append (front : List Token) {ts : List Token} (closed : Closed ts) : Closed (front ++ ts) := by
  unfold Closed at closed ⊢
  cases last : ts.getLast? with
  | none =>
    rw [last] at closed
    cases closed
  | some t => rwa [List.getLast?_append, last, Option.some_or, ← last]

theorem closed_singleton {t : Token} (closes : t.closes = true) : Closed [t] := closes

theorem closed_columnTokens (owner column : String) : Closed (columnTokens owner column) := rfl

theorem closed_parenthesized (inner : List Token) : Closed (parenthesized inner) :=
  closed_append (.symbol "(" :: inner) (closed_singleton (by decide))

theorem closed_term (d : Dialect) (t : Term) : Closed (t.tokens d) := by
  cases t with
  | column owner path => exact closed_columnTokens owner path.column
  | literal v => exact closed_singleton rfl
  | aggregate f argument distinct => exact closed_append [.word f.keyword] (closed_parenthesized _)
  | subquery s => exact closed_parenthesized _

theorem closed_output (d : Dialect) (o : Output) : ∀ column ∈ o.columns d, Closed column := by
  cases o with
  | term t => exact List.forall_mem_singleton.mpr (closed_term d t)
  | entity a => exact List.forall_mem_map.mpr fun column _ => closed_columnTokens a.name column

theorem closed_outputColumns (d : Dialect) (os : List Output) : ∀ column ∈ outputColumns d os, Closed column := by
  induction os with
  | nil => exact fun _ none => absurd none List.not_mem_nil
  | cons o rest ih => exact List.forall_mem_append.mpr ⟨closed_output d o, ih⟩

theorem closed_selectList (d : Dialect) (s : Select) : ∀ column ∈ s.selectList d, Closed column := by
  refine List.forall_mem_append.mpr ⟨closed_outputColumns d s.outputs, fun column member => ?_⟩
  obtain ⟨f, _, own⟩ := List.mem_flatMap.mp member
  exact closed_output d (.entity f.target) column own

theorem closed_joined (separator : List Token) {items : List (List Token)} (some : items ≠ [])
    (closed : ∀ item ∈ items, Closed item) : Closed (joined separator items) := by
  induction items with
  | nil => exact absurd rfl some
  | cons first rest ih =>
    obtain ⟨own, others⟩ := List.forall_mem_cons.mp closed
    cases rest with
    | nil => rwa [joined_singleton]
    | cons second rest =>
      rw [joined_cons_cons]
      exact closed_append _ (closed_append _ (ih (List.cons_ne_nil _ _) others))

theorem closed_headTokens (d : Dialect) (aliased : Bool) (s : Select) : Closed (s.headTokens d aliased) := by
  refine closed_append _ ?_
  split
  case isTrue => exact closed_singleton (by decide)
  case isFalse filled =>
    have listed : s.selectList d ≠ [] := fun none => filled (List.isEmpty_iff.mpr none)
    cases aliased with
    | false =>
      rw [aliasedColumns_false]
      exact closed_joined _ listed (closed_selectList d s)
    | true =>
      rw [aliasedColumns_true]
      refine closed_joined _ (mt List.mapIdx_eq_nil_iff.mp listed) fun item member => ?_
      obtain ⟨i, bound, rfl⟩ := List.mem_mapIdx.mp member
      exact closed_append _ (closed_singleton rfl)

end Closed

/-- A character in front of which no space is left out. -/
def Solid (c : Char) : Prop := c ≠ ' ' ∧ c ≠ '('

/-- A space is written behind anything solid. -/
theorem Token.written_space_of_solid (d : Dialect) (n : Nat) {c : Char} (solid : Solid c) :
    Token.space.written d (some c) n = [' '] := by
  simp only [written]
  split
  case h_1 none => cases none
  case h_2 blank => exact absurd (Option.some.inj blank) solid.1
  case h_3 opening => exact absurd (Option.some.inj opening) solid.2
  case h_4 => rfl

theorem Token.last_written (d : Dialect) (last : Option Char) (n : Nat) {t : Token} (closes : t.closes = true) :
    ∃ c, (t.written d last n).getLast? = some c ∧ Solid c := by
  have said {s : String} (closes : (s.toList.getLast?.any fun c => c != ' ' && c != '(') = true) :
      ∃ c, s.toList.getLast? = some c ∧ Solid c := by
    cases ends : s.toList.getLast? with
    | none =>
      rw [ends] at closes
      cases closes
    | some c =>
      rw [ends, Option.any_some, Bool.and_eq_true, bne_iff_ne, bne_iff_ne] at closes
      exact ⟨c, rfl, closes⟩
  cases t with
  | space => cases closes
  | word s => exact said closes
  | symbol s => exact said closes
  | identifier name =>
    refine ⟨d.quoteMark, ?_, ?_⟩
    · rw [written, Dialect.quoted, String.toList_ofList, List.getLast?_concat]
    · cases d <;> exact ⟨by decide, by decide⟩
  | value v =>
    cases null : v.isNull with
    | true => exact ⟨'L', by rw [written, if_pos null]; rfl, by decide, by decide⟩
    | false =>
      rw [written, null, if_neg Bool.false_ne_true]
      cases numbers : d.numbersPlaceholders with
      | true =>
        obtain ⟨c, digit, ends⟩ := d.getLast_placeholder numbers (n + 1)
        refine ⟨c, ends, ?_, ?_⟩
        all_goals
          rintro rfl
          revert digit
          decide
      | false =>
        rw [Dialect.placeholder_toList, numbers, if_neg Bool.false_ne_true]
        exact ⟨d.placeholderMark, rfl, by cases d <;> exact ⟨by decide, by decide⟩⟩

namespace Writer

theorem written_append (d : Dialect) (last : Option Char) (n : Nat) (ts us : List Token) :
    written d last n (ts ++ us) = written d last n ts ++
      written d ((written d last n ts).getLast?.or last) (n + (Token.params ts).length) us := by
  induction ts generalizing last n with
  | nil => rfl
  | cons t rest ih =>
    have params : (Token.params (t :: rest)).length = t.param?.toList.length + (Token.params rest).length := by
      cases added : t.param? with
      | none => simp [Token.params, added]
      | some v => simp [Token.params, added, Nat.add_comm]
    rw [List.cons_append, written, written, ih, params, List.getLast?_append, Option.or_assoc, List.append_assoc,
      Nat.add_assoc]

theorem last_written (d : Dialect) (last : Option Char) (n : Nat) {ts : List Token} (closed : Closed ts) :
    ∃ c, (written d last n ts).getLast? = some c ∧ Solid c := by
  unfold Closed at closed
  cases ends : ts.getLast? with
  | none =>
    rw [ends] at closed
    cases closed
  | some t =>
    rw [ends] at closed
    obtain ⟨front, rfl⟩ := List.getLast?_eq_some_iff.mp ends
    obtain ⟨c, lastOf, solid⟩ := t.last_written d ((written d last n front).getLast?.or last)
      (n + (Token.params front).length) closed
    refine ⟨c, ?_, solid⟩
    rw [written_append, written, written, List.append_nil, List.getLast?_append, lastOf, Option.some_or]

/-- The first space is written behind anything solid. -/
theorem written_space (d : Dialect) (n : Nat) (ts : List Token) {c : Char} (solid : Solid c) :
    written d (some c) n (.space :: ts) = ' ' :: written d (some ' ') n ts := by
  rw [written, Token.written_space_of_solid d n solid]
  rfl

end Writer

/-- The text of tokens set off from what stands before them, numbered behind `n` parameters. It depends on `n` by the
numbers of its placeholders only. -/
def bodyText (d : Dialect) (n : Nat) (body : List Token) : String := String.ofList (Writer.written d (some ')') n body)

/-- A statement is made of a body and of what stands around it, in its text and in its parameters. -/
structure Statement.Frames (st : Statement) (d : Dialect) (head body tail : List Token) : Prop where
  tokens : st = .ofTokens d (head ++ body ++ tail)
  text : ∃ rest, st.sql = (Statement.ofTokens d head).sql ++ bodyText d (Token.params head).length body ++ rest
  params : st.params = Token.params head ++ Token.params body ++ Token.params tail

theorem Statement.frames_ofTokens (d : Dialect) {head body : List Token} (closed : Closed head) (tail : List Token) :
    (Statement.ofTokens d (head ++ .space :: body ++ tail)).Frames d head (.space :: body) tail := by
  obtain ⟨c, ends, solid⟩ := Writer.last_written d none 0 closed
  refine ⟨rfl, ?_, ?_⟩
  · rw [ofTokens_eq, ofTokens_eq, bodyText, Writer.written_append, Writer.written_append, ends, Option.some_or,
      Writer.written_space d _ body solid, Writer.written_space d _ body (⟨by decide, by decide⟩ : Solid ')'),
      Nat.zero_add]
    rw [String.ofList_append, String.ofList_append]
    exact ⟨_, rfl⟩
  · rw [ofTokens_eq]
    simp only [Token.params, List.filterMap_append]

end EntityMapper
