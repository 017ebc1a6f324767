import Mathlib.Tactic.Common
import EntityMapper.Sql.Writer

namespace EntityMapper

theorem joined_singleton (separator item : List Token) : joined separator [item] = item := by
  simp [joined, List.intercalate, List.intersperse]

theorem joined_cons_cons (separator first second : List Token) (rest : List (List Token)) :
    joined separator (first :: second :: rest) = first ++ (separator ++ joined separator (second :: rest)) := by
  simp [joined, List.intercalate, List.intersperse]

namespace Dialect

/-- The character that placeholders start with. -/
def placeholderMark : Dialect → Char
  | postgres => '$'
  | _ => '?'

/-- Placeholders carry the number of their parameter. -/
def numbersPlaceholders : Dialect → Bool
  | postgres => true
  | _ => false

theorem placeholder_toList (d : Dialect) (n : Nat) :
    (d.placeholder n).toList = d.placeholderMark :: if d.numbersPlaceholders then Nat.toDigits 10 n else [] := by
  cases d with
  | postgres =>
    change ("$" ++ toString n).toList = _
    rw [String.toList_append, Nat.toString_eq_ofList_toDigits]
    simp [placeholderMark, numbersPlaceholders]
  | _ => simp [placeholder, placeholderMark, numbersPlaceholders]

/-- The placeholders of a text outside of its quoted identifiers, in order: a placeholder's mark and, where they are
numbered, the digits behind it. A mark that is written twice inside an identifier ends the identifier and begins it
again. -/
def scan (d : Dialect) : Bool → List Char → List (List Char)
  | _, [] => []
  | true, c :: rest => d.scan (c != d.quoteMark) rest
  | false, c :: rest =>
    if c = d.quoteMark then d.scan true rest
    else if c = d.placeholderMark then
      (c :: if d.numbersPlaceholders then rest.takeWhile Char.isDigit else []) :: d.scan false rest
    else d.scan false rest

def placeholdersIn (d : Dialect) (sql : String) : List String := (d.scan false sql.toList).map String.ofList

/-- The character starts neither an identifier nor a placeholder, in any dialect. -/
def isPlain (c : Char) : Bool := c != '"' && c != '\x60' && c != '?' && c != '$'

theorem ne_marks (d : Dialect) {c : Char} (plain : isPlain c = true) : c ≠ d.quoteMark ∧ c ≠ d.placeholderMark := by
  simp only [isPlain, Bool.and_eq_true, bne_iff_ne] at plain
  obtain ⟨⟨⟨double, back⟩, question⟩, dollar⟩ := plain
  cases d with
  | mysql => exact ⟨back, question⟩
  | postgres => exact ⟨double, dollar⟩
  | sqlite => exact ⟨double, question⟩
  | ansi => exact ⟨double, question⟩

theorem scan_plain (d : Dialect) {s : List Char} (plain : s.all isPlain = true) (rest : List Char) :
    d.scan false (s ++ rest) = d.scan false rest := by
  induction s with
  | nil => rfl
  | cons c s ih =>
    simp only [List.all_cons, Bool.and_eq_true] at plain
    obtain ⟨quote, place⟩ := d.ne_marks plain.1
    rw [List.cons_append, scan, if_neg quote, if_neg place, ih plain.2]

theorem scan_quoted (d : Dialect) (identifier : String) (rest : List Char) :
    d.scan false ((d.quoted identifier).toList ++ rest) = d.scan false rest := by
  have inside (cs : List Char) : d.scan true (doubled d.quoteMark cs ++ d.quoteMark :: rest) = d.scan false rest := by
    induction cs with
    | nil => simp [doubled, scan]
    | cons c cs ih =>
      unfold doubled
      by_cases mark : c = d.quoteMark
      · simp only [mark, if_true, List.cons_append, scan, bne_self_eq_false, ih]
      · simp only [mark, if_false, List.cons_append, scan, bne_iff_ne.mpr mark, ih]
  rw [quoted, String.toList_ofList, List.cons_append, List.cons_append, List.append_assoc, scan, if_pos rfl]
  exact inside identifier.toList

/-- A digit would be taken for a part of the number before it. -/
def Ends (rest : List Char) : Prop := ∀ c ∈ rest.head?, c.isDigit = false

theorem isPlain_of_isDigit {c : Char} (digit : c.isDigit = true) : isPlain c = true := by
  simp only [isPlain, Bool.and_eq_true, bne_iff_ne]
  refine ⟨⟨⟨?_, ?_⟩, ?_⟩, ?_⟩
  all_goals
    rintro rfl
    revert digit
    decide

theorem getLast_placeholder {d : Dialect} (numbers : d.numbersPlaceholders = true) (n : Nat) :
    ∃ c, c.isDigit = true ∧ (d.placeholder n).toList.getLast? = some c := by
  have digits : Nat.toDigits 10 n ≠ [] := Nat.toDigits_ne_nil
  refine ⟨_, Nat.isDigit_of_mem_toDigits (by decide) (by decide) (List.getLast_mem digits), ?_⟩
  rw [placeholder_toList, if_pos numbers, List.getLast?_cons, List.getLast?_eq_some_getLast digits, Option.getD_some]

theorem scan_placeholder (d : Dialect) (n : Nat) {rest : List Char} (ends : d.numbersPlaceholders = true → Ends rest) :
    d.scan false ((d.placeholder n).toList ++ rest) = (d.placeholder n).toList :: d.scan false rest := by
  have apart : d.placeholderMark ≠ d.quoteMark := by cases d <;> decide
  rw [placeholder_toList, List.cons_append, scan, if_neg apart, if_pos rfl]
  cases numbers : d.numbersPlaceholders with
  | false => rfl
  | true =>
    have digits : ∀ c ∈ Nat.toDigits 10 n, c.isDigit = true := fun c member =>
      Nat.isDigit_of_mem_toDigits (by decide) (by decide) member
    have plain : (Nat.toDigits 10 n).all isPlain = true :=
      List.all_eq_true.mpr fun c member => isPlain_of_isDigit (digits c member)
    have stops : rest.takeWhile Char.isDigit = [] := by
      cases rest with
      | nil => rfl
      | cons c rest => exact List.takeWhile_cons_of_neg (by rw [ends numbers c rfl]; exact Bool.false_ne_true)
    simp only [if_true]
    rw [List.takeWhile_append_of_pos digits, stops, List.append_nil, d.scan_plain plain]

end Dialect

namespace Token

/-- The parameter that a token adds: null is written out. -/
def param? : Token → Option Value
  | value v => if v.isNull then none else some v
  | _ => none

/-- What a token adds to a text, by the text's last character and the number of parameters before it. -/
def written (d : Dialect) (last : Option Char) (n : Nat) : Token → List Char
  | space =>
    match last with
    | none | some ' ' | some '(' => []
    | some _ => [' ']
  | word s => s.toList
  | symbol s => s.toList
  | identifier name => (d.quoted name).toList
  | value v => if v.isNull then ['N', 'U', 'L', 'L'] else (d.placeholder (n + 1)).toList

theorem write_eq (d : Dialect) (w : Writer) (t : Token) :
    (t.write d w).sql.toList = w.sql.toList ++ t.written d w.sql.toList.getLast? w.params.length ∧
      (t.write d w).params = w.params ++ t.param?.toList := by
  cases t with
  | space =>
    simp only [write, Writer.space, String.back?_eq, written, param?, Option.toList_none, List.append_nil]
    split
    · simp [*]
    · simp [*]
    · simp [*]
    · exact ⟨by simp [Writer.text, *], rfl⟩
  | word s => exact ⟨String.toList_append, (List.append_nil _).symm⟩
  | symbol s => exact ⟨String.toList_append, (List.append_nil _).symm⟩
  | identifier name => exact ⟨String.toList_append, (List.append_nil _).symm⟩
  | value v =>
    cases v with
    | null => exact ⟨by simp [write, Writer.value, Writer.text, written, Value.isNull], (List.append_nil _).symm⟩
    | _ => exact ⟨String.toList_append, rfl⟩

/-- The words and the symbols of a statement hold no marks, and no symbol begins with a digit. -/
def isPlain : Token → Bool
  | word s => s.toList.all Dialect.isPlain
  | symbol s => s.toList.all Dialect.isPlain && s.toList.head?.any fun c => !c.isDigit
  | _ => true

def isWord : Token → Bool
  | word _ => true
  | _ => false

def isValue : Token → Bool
  | value _ => true
  | _ => false

/-- The parameters of tokens, in their order. -/
def params (ts : List Token) : List Value := ts.filterMap param?

end Token

/-- Tokens of plain words and symbols, no word right behind a value. They may stand behind a value themselves, or only
behind something else. -/
def Clean : Bool → List Token → Prop
  | _, [] => True
  | afterValue, t :: rest => t.isPlain = true ∧ (afterValue = true → t.isWord = false) ∧ Clean t.isValue rest

namespace Writer

/-- What tokens add to a text. -/
def written (d : Dialect) : Option Char → Nat → List Token → List Char
  | _, _, [] => []
  | last, n, t :: rest =>
    t.written d last n ++ written d ((t.written d last n).getLast?.or last) (n + t.param?.toList.length) rest

theorem tokens_eq (d : Dialect) (w : Writer) (ts : List Token) :
    (w.tokens d ts).sql.toList = w.sql.toList ++ written d w.sql.toList.getLast? w.params.length ts ∧
      (w.tokens d ts).params = w.params ++ Token.params ts := by
  induction ts generalizing w with
  | nil => exact ⟨(List.append_nil _).symm, (List.append_nil _).symm⟩
  | cons t rest ih =>
    obtain ⟨sql, params⟩ := t.write_eq d w
    obtain ⟨text, values⟩ := ih (t.write d w)
    refine ⟨?_, ?_⟩
    · change ((t.write d w).tokens d rest).sql.toList = _
      rw [text, sql, params, List.getLast?_append, List.length_append, List.append_assoc, written]
    · change ((t.write d w).tokens d rest).params = _
      rw [values, params, List.append_assoc]
      cases added : t.param? with
      | none => simp [Token.params, added]
      | some v => simp [Token.params, added]

/-- Nothing that may stand behind a value begins with a digit. -/
theorem ends_written {d : Dialect} {ts : List Token} (clean : Clean true ts) {c : Char} (noSpace : c ≠ ' ')
    (noParen : c ≠ '(') (n : Nat) : Dialect.Ends (written d (some c) n ts) := by
  cases ts with
  | nil => exact fun _ none => nomatch none
  | cons t rest =>
    obtain ⟨plain, word, _⟩ := clean
    have first {x : Char} {xs more : List Char} (text : t.written d (some c) n = x :: xs) (other : x.isDigit = false) :
        Dialect.Ends (t.written d (some c) n ++ more) := by
      rw [text]
      intro x' head
      cases head
      exact other
    cases t with
    | space =>
      have text : Token.space.written d (some c) n = ' ' :: [] := by simp only [Token.written]
      exact first text (by decide)
    | word s => cases word rfl
    | symbol s =>
      simp only [Token.isPlain, Bool.and_eq_true] at plain
      cases text : s.toList with
      | nil =>
        rw [text] at plain
        cases plain.2
      | cons x xs =>
        rw [text] at plain
        exact first text (by simpa using plain.2)
    | identifier name =>
      refine first (by rw [Token.written, Dialect.quoted, String.toList_ofList, List.cons_append]) ?_
      cases d <;> decide
    | value v =>
      cases null : v.isNull with
      | true => exact first (by rw [Token.written, if_pos null]) (by decide)
      | false =>
        refine first (by rw [Token.written, null, if_neg Bool.false_ne_true, Dialect.placeholder_toList]) ?_
        cases d <;> decide

/-- The placeholders of what is written are those of its parameters, numbered from where the text stands. -/
theorem scan_written (d : Dialect) {ts : List Token} {afterValue : Bool} (clean : Clean afterValue ts)
    (last : Option Char) (n : Nat) :
    d.scan false (written d last n ts) =
      (List.range' (n + 1) (Token.params ts).length).map fun i => (d.placeholder i).toList := by
  induction ts generalizing afterValue last n with
  | nil => rfl
  | cons t rest ih =>
    obtain ⟨plain, _, others⟩ := clean
    have skip (same : d.scan false (written d last n (t :: rest)) = d.scan false (written d
        ((t.written d last n).getLast?.or last) (n + t.param?.toList.length) rest)) (none : t.param? = none) :
        d.scan false (written d last n (t :: rest)) =
          (List.range' (n + 1) (Token.params (t :: rest)).length).map fun i => (d.placeholder i).toList := by
      have fewer : Token.params (t :: rest) = Token.params rest := List.filterMap_cons_none none
      rw [same, ih others, fewer, none]
      rfl
    cases t with
    | space =>
      refine skip ?_ rfl
      rw [written]
      refine d.scan_plain ?_ _
      simp only [Token.written]
      split <;> decide
    | word s => exact skip (d.scan_plain plain _) rfl
    | symbol s => exact skip (d.scan_plain (Bool.and_eq_true_iff.mp plain).1 _) rfl
    | identifier name => exact skip (d.scan_quoted name _) rfl
    | value v =>
      cases null : v.isNull with
      | true =>
        refine skip ?_ (by rw [Token.param?, if_pos null])
        rw [written]
        refine d.scan_plain ?_ _
        rw [Token.written, if_pos null]
        decide
      | false =>
        have text : (Token.value v).written d last n = (d.placeholder (n + 1)).toList := by
          rw [Token.written, null, if_neg Bool.false_ne_true]
        have added : (Token.value v).param? = some v := by rw [Token.param?, null, if_neg Bool.false_ne_true]
        have more : Token.params (.value v :: rest) = v :: Token.params rest := List.filterMap_cons_some added
        rw [written, text, added, d.scan_placeholder, ih others, more]
        · rfl
        · intro numbers
          obtain ⟨c, digit, lastDigit⟩ := d.getLast_placeholder numbers (n + 1)
          rw [lastDigit, Option.some_or]
          refine ends_written others ?_ ?_ _
          all_goals
            rintro rfl
            revert digit
            decide

end Writer

/-- A statement's placeholders outside of quoted identifiers stand for its parameters one by one, in order, and its
parameters are the given values, none of which is null. -/
structure Statement.Aligned (s : Statement) (d : Dialect) (literals : List Value) : Prop where
  params : s.params = literals
  notNull : .null ∉ s.params
  placeholders : d.placeholdersIn s.sql = (List.range' 1 s.params.length).map d.placeholder

theorem Statement.ofTokens_eq (d : Dialect) (ts : List Token) :
    Statement.ofTokens d ts = ⟨String.ofList (Writer.written d none 0 ts), Token.params ts⟩ := by
  obtain ⟨sql, params⟩ := Writer.empty.tokens_eq d ts
  have text : (Statement.ofTokens d ts).sql.toList = Writer.written d none 0 ts := by
    change (Writer.empty.tokens d ts).sql.toList = _
    rw [sql]
    rfl
  refine Statement.mk.injEq .. |>.mpr ⟨?_, params⟩
  rw [← text, String.ofList_toList]
  rfl

theorem Statement.aligned_ofTokens (d : Dialect) {ts : List Token} (clean : Clean false ts) :
    (Statement.ofTokens d ts).Aligned d (Token.params ts) := by
  rw [ofTokens_eq]
  refine ⟨rfl, ?_, ?_⟩
  · intro member
    obtain ⟨t, _, added⟩ := List.mem_filterMap.mp member
    cases t with
    | value v =>
      cases null : v.isNull with
      | true =>
        rw [Token.param?, if_pos null] at added
        cases added
      | false =>
        rw [Token.param?, null, if_neg Bool.false_ne_true] at added
        cases added
        cases null
    | _ => cases added
  · rw [Dialect.placeholdersIn, String.toList_ofList, Writer.scan_written d clean, List.map_map]
    exact List.map_congr_left fun i _ => String.ofList_toList

end EntityMapper
