import Mathlib.Data.List.Chain
import EntityMapper.Proofs.Action
import EntityMapper.Proofs.Sql.Clauses
import EntityMapper.Proofs.Sql.Rendered

namespace EntityMapper

/-- Reads an identifier behind its opening mark, and what follows it. A mark written twice stands for one mark, and a
single one closes the identifier. -/
def readQuoted (mark : Char) : List Char → Option (List Char × List Char)
  | [] => none
  | c :: rest =>
    if c = mark then
      match rest with
      | [] => some ([], [])
      | next :: others =>
        if next = mark then (readQuoted mark others).map (Prod.map (mark :: ·) id) else some ([], next :: others)
    else (readQuoted mark rest).map (Prod.map (c :: ·) id)

section readQuoted

variable {mark : Char}

theorem readQuoted_char {c : Char} (other : c ≠ mark) (rest : List Char) :
    readQuoted mark (c :: rest) = (readQuoted mark rest).map (Prod.map (c :: ·) id) := by
  rw [readQuoted.eq_def]
  exact if_neg other

theorem readQuoted_twice (rest : List Char) :
    readQuoted mark (mark :: mark :: rest) = (readQuoted mark rest).map (Prod.map (mark :: ·) id) := by
  rw [readQuoted.eq_def]
  exact (if_pos rfl).trans (if_pos rfl)

theorem readQuoted_single {rest : List Char} (apart : rest.head? ≠ some mark) :
    readQuoted mark (mark :: rest) = some ([], rest) := by
  rw [readQuoted.eq_def]
  refine (if_pos rfl).trans ?_
  cases rest with
  | nil => rfl
  | cons next others => exact if_neg fun same => apart (congrArg some same)

/-- What is written twice is read once, and the closing mark is not taken for a first one of two. -/
theorem readQuoted_doubled (name : List Char) {rest : List Char} (apart : rest.head? ≠ some mark) :
    readQuoted mark (doubled mark name ++ mark :: rest) = some (name, rest) := by
  induction name with
  | nil => exact readQuoted_single apart
  | cons c name ih =>
    unfold doubled
    by_cases same : c = mark
    · rw [if_pos same, List.cons_append, List.cons_append, readQuoted_twice, ih, same]
      rfl
    · rw [if_neg same, List.cons_append, readQuoted_char same, ih]
      rfl

end readQuoted

namespace Dialect

variable (d : Dialect)

/-- Reads a quoted identifier and what follows it. -/
def readIdentifier : List Char → Option (String × List Char)
  | [] => none
  | c :: rest => if c = d.quoteMark then (readQuoted d.quoteMark rest).map (Prod.map String.ofList id) else none

theorem readIdentifier_quoted (name : String) {rest : List Char} (apart : rest.head? ≠ some d.quoteMark) :
    d.readIdentifier ((d.quoted name).toList ++ rest) = some (name, rest) := by
  rw [quoted, String.toList_ofList, List.cons_append, List.cons_append, List.append_assoc, List.singleton_append,
    readIdentifier, if_pos rfl, readQuoted_doubled name.toList apart]
  exact congrArg some (Prod.ext String.ofList_toList rfl)

theorem quoted_injective : Function.Injective d.quoted := by
  intro s t same
  have read (name : String) : d.readIdentifier ((d.quoted name).toList ++ []) = some (name, []) :=
    d.readIdentifier_quoted name (nomatch ·)
  have pairs := (read s).symm.trans (same ▸ read t)
  exact congrArg Prod.fst (Option.some.inj pairs)

theorem quoteMark_solid : Solid d.quoteMark := by cases d <;> exact ⟨by decide, by decide⟩

end Dialect

/-- The text of the token keeps apart what is quoted before it and behind it: a space or a symbol. -/
def Token.isApart : Token → Bool
  | space => true
  | symbol s => s.toList.head?.any Dialect.isPlain
  | _ => false

/-- What may stand behind a tight token begins with something that keeps apart. -/
theorem Tidy.head_isApart {ts : List Token} (tidy : Tidy true ts) : ∀ t ∈ ts.head?, t.isApart = true := by
  cases tidy with
  | nil => exact fun _ none => nomatch none
  | @loose _ t rest kind _ =>
    intro t' first
    cases first
    cases t with
    | space => rfl
    | symbol s =>
      simp only [Token.isLoose, Bool.or_eq_true, beq_iff_eq, or_assoc] at kind
      rcases kind with rfl | rfl | rfl <;> decide
    | word | identifier | value => cases kind
  | group _ _ =>
    intro t first
    cases first
    decide

/-- Nothing stands right behind a tight token but what keeps apart. -/
def Apart (ts : List Token) : Prop := ts.IsChain fun t next => t.isTight = true → next.isApart = true

theorem Apart.cons {t : Token} {ts : List Token} (other : t.isTight = false) (apart : Apart ts) : Apart (t :: ts) := by
  refine List.isChain_cons.mpr ⟨fun next _ tight => ?_, apart⟩
  rw [other] at tight
  cases tight

theorem Token.isTight_of_isLoose {t : Token} (kind : t.isLoose = true) : t.isTight = false := by
  cases t with
  | space => rfl
  | symbol s =>
    simp only [Token.isLoose, Bool.or_eq_true, beq_iff_eq, or_assoc] at kind
    rcases kind with rfl | rfl | rfl <;> decide
  | word | identifier | value => cases kind

theorem Tidy.apart {b : Bool} {ts : List Token} (tidy : Tidy b ts) : Apart ts := by
  induction tidy with
  | nil => exact .nil
  | loose kind _ ih => exact .cons (Token.isTight_of_isLoose kind) ih
  | tight _ others ih => exact List.isChain_cons.mpr ⟨fun next first _ => others.head_isApart next first, ih⟩
  | @group b inner rest _ _ inside outside =>
    have closing : Apart (.symbol ")" :: rest) := .cons (by decide) outside
    rw [parenthesized, List.cons_append, List.cons_append, List.append_assoc, List.singleton_append]
    refine .cons (by decide) (List.isChain_append.mpr ⟨inside, closing, fun t _ next first _ => ?_⟩)
    cases first
    decide

/-- What is written behind an identifier does not begin with its mark, if it keeps apart. -/
theorem Writer.head_written (d : Dialect) (n : Nat) {ts : List Token} (apart : ∀ t ∈ ts.head?, t.isApart = true) :
    (written d (some d.quoteMark) n ts).head? ≠ some d.quoteMark := by
  cases ts with
  | nil => exact nofun
  | cons t rest =>
    have own := apart t rfl
    cases t with
    | space =>
      rw [written_space d n rest d.quoteMark_solid, List.head?_cons]
      exact fun same => d.quoteMark_solid.1 (Option.some.inj same).symm
    | symbol s =>
      rw [Token.isApart] at own
      rw [written, Token.written]
      cases text : s.toList with
      | nil =>
        rw [text] at own
        cases own
      | cons c cs =>
        rw [text] at own
        exact fun same => (d.ne_marks own).1 (Option.some.inj same)
    | word | identifier | value => cases own

/-- A statement is written from tokens, and behind each identifier among them stands something else than its mark, so
that the identifier is read back from where it is written. -/
structure Statement.Delimits (st : Statement) (d : Dialect) (ts : List Token) : Prop where
  written : st = .ofTokens d ts
  identifiers : ∀ before name after, ts = before ++ .identifier name :: after →
    ∃ rest, st.sql.toList = (ofTokens d before).sql.toList ++ ((d.quoted name).toList ++ rest) ∧
      rest.head? ≠ some d.quoteMark ∧ d.readIdentifier ((d.quoted name).toList ++ rest) = some (name, rest)

theorem Statement.delimits_ofTokens (d : Dialect) {ts : List Token} (tidy : Tidy true ts) :
    (ofTokens d ts).Delimits d ts := by
  refine ⟨rfl, ?_⟩
  rintro before name after rfl
  obtain ⟨behind, _⟩ := List.isChain_cons.mp (List.isChain_append.mp tidy.apart).2.1
  have mark (last : Option Char) (n : Nat) :
      (((Token.identifier name).written d last n).getLast?.or last) = some d.quoteMark := by
    rw [Token.written, Dialect.quoted, String.toList_ofList, List.getLast?_concat, Option.some_or]
  have apart := Writer.head_written d (Token.params before).length fun next first => behind next first rfl
  refine ⟨_, ?_, apart, d.readIdentifier_quoted name apart⟩
  rw [ofTokens_eq, ofTokens_eq, String.toList_ofList, String.toList_ofList, Writer.written_append, Writer.written,
    mark, Nat.zero_add]
  rfl

/-- Identifiers do not break out of their quotation marks. A quoted identifier is read back, whatever follows it that
does not begin with the mark, so that no two have the same text, and nothing else follows an identifier in a
statement. -/
theorem identifiers_read (registry : Registry) (d : Dialect) :
    (∀ name rest, List.head? rest ≠ some d.quoteMark →
        d.readIdentifier ((d.quoted name).toList ++ rest) = some (name, rest)) ∧
      Function.Injective d.quoted ∧
      (∀ p query, compile registry d p = .ok query →
        ∃ s, p.resolve registry = .ok s ∧ query.statement.Delimits d (s.tokens d false)) ∧
      (∀ p st, compileCount registry d p = .ok st →
        ∃ q, p.resolveCount registry = .ok q ∧ st.Delimits d (q.tokens d)) ∧
      (∀ e assignments returning,
        (compileInsert d e assignments returning).Delimits d (insertTokens d e assignments returning)) ∧
      ∀ e assignments id st, compileUpdate d e assignments id = .ok st →
        st.Delimits d (updateTokens e assignments id) := by
  refine ⟨fun name rest => d.readIdentifier_quoted name, d.quoted_injective, ?_, ?_, ?_, ?_⟩
  · intro p query run
    obtain ⟨s, resolved, run⟩ := Except.bind_eq_ok.mp run
    cases run
    exact ⟨s, resolved, Statement.delimits_ofTokens d (tidy_select d s false)⟩
  · intro p st run
    obtain ⟨q, resolved, run⟩ := Except.bind_eq_ok.mp run
    cases run
    exact ⟨q, resolved, Statement.delimits_ofTokens d (tidy_count d q)⟩
  · intro e assignments returning
    exact Statement.delimits_ofTokens d (tidy_insert d e assignments returning)
  · intro e assignments id st run
    unfold compileUpdate at run
    split at run
    · cases run
    · cases run
      exact Statement.delimits_ofTokens d (tidy_update e assignments id)

/-- A table and columns whose names are made of what the names around them are told apart by. -/
def marksEntity : Entity :=
  ⟨"marks", "ma\"rks\"\"", [⟨"id", "\"", .integer⟩, ⟨"text", "\x60. \x60? = $1", .text⟩], ⟨0, by decide⟩, []⟩

def marksPlan : Plan where
  projections := [.entity ⟨"\x60", marksEntity⟩]
  sources := [⟨"\x60", marksEntity⟩]
  joins := []
  filters := []
  groups := []
  havings := []
  orderings := []
  offset := none
  limit := none
  distinct := false

theorem identifiers_read_marks :
    (['.', '\x60'].head? ≠ some Dialect.mysql.quoteMark ∧ Dialect.mysql.readIdentifier
        ((Dialect.mysql.quoted "\x60a\x60\x60").toList ++ ['.', '\x60']) = some ("\x60a\x60\x60", ['.', '\x60'])) ∧
      (∃ query, compile ⟨[marksEntity]⟩ .mysql marksPlan = .ok query ∧ ∃ s, marksPlan.resolve ⟨[marksEntity]⟩ = .ok s ∧
        query.statement.Delimits .mysql (s.tokens .mysql false)) ∧
      (∃ st, compileCount ⟨[marksEntity]⟩ .mysql marksPlan = .ok st ∧
        ∃ q, marksPlan.resolveCount ⟨[marksEntity]⟩ = .ok q ∧ st.Delimits .mysql (q.tokens .mysql)) ∧
      ∃ st, compileUpdate .mysql marksEntity [("\x60. \x60? = $1", .null)] (.int 7) = .ok st ∧
        st.Delimits .mysql (updateTokens marksEntity [("\x60. \x60? = $1", .null)] (.int 7)) := by
  obtain ⟨read, _, query, count, _, update⟩ := identifiers_read ⟨[marksEntity]⟩ .mysql
  refine ⟨⟨by decide, read _ _ (by decide)⟩, ⟨_, rfl, query marksPlan _ rfl⟩, ⟨_, rfl, count marksPlan _ rfl⟩, _, rfl, ?_⟩
  exact update marksEntity [("\x60. \x60? = $1", .null)] (.int 7) _ rfl

end EntityMapper
