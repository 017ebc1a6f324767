import EntityMapper.Proofs.Sql.Clauses
import EntityMapper.Proofs.Sql.Rendered

namespace EntityMapper

/-- A piece of a statement's text. Placeholders are not told apart, and what begins with a quotation mark and does not
end with one is no identifier. -/
inductive Lexeme where
  | word (text : String)
  | symbol (text : String)
  | identifier (name : String)
  | placeholder
  | unclosed (text : String)
  deriving DecidableEq, Repr

/-- What has been read of a lexeme so far: nothing behind a space, or its characters. An identifier is closed by a
mark, unless a second one follows. -/
inductive Reading where
  | blank
  | point (c : Char)
  | word (read : List Char)
  | sign (read : List Char)
  | quoted (read : List Char)
  | closed (read : List Char)
  | placeholder

namespace Reading

def lexemes : Reading → List Lexeme
  | blank => []
  | point c => [.symbol (String.singleton c)]
  | word read => [.word (String.ofList read)]
  | sign read => [.symbol (String.ofList read)]
  | quoted read => [.unclosed (String.ofList read)]
  | closed read => [.identifier (String.ofList read)]
  | placeholder => [.placeholder]

def start (d : Dialect) (c : Char) : Reading :=
  if c = ' ' then blank
  else if c = d.quoteMark then quoted []
  else if c = d.placeholderMark then placeholder
  else if wordChar c then word [c]
  else if signChar c then sign [c]
  else point c

/-- Reads on as long as the next character belongs to the same lexeme. -/
def extend (d : Dialect) : Reading → Char → Option Reading
  | word read, c => if wordChar c then some (word (read ++ [c])) else none
  | sign read, c => if signChar c then some (sign (read ++ [c])) else none
  | quoted read, c => some (if c = d.quoteMark then closed read else quoted (read ++ [c]))
  | closed read, c => if c = d.quoteMark then some (quoted (read ++ [c])) else none
  | placeholder, c => if d.numbersPlaceholders && c.isDigit then some placeholder else none
  | blank, _ | point _, _ => none

end Reading

namespace Dialect

/-- A lexeme is as long as it can be. -/
def lexFrom (d : Dialect) : Reading → List Char → List Lexeme
  | r, [] => r.lexemes
  | r, c :: rest =>
    match r.extend d c with
    | some longer => d.lexFrom longer rest
    | none => r.lexemes ++ d.lexFrom (.start d c) rest

def lexemes (d : Dialect) (text : List Char) : List Lexeme := d.lexFrom .blank text

end Dialect

namespace Token

/-- The lexemes of a token, which are none for a space. -/
def lexemes : Token → List Lexeme
  | space => []
  | word s => [.word s]
  | symbol s => [.symbol s]
  | identifier name => [.identifier name]
  | value v => if v.isNull then [.word "NULL"] else [.placeholder]

end Token

def lexemesOf (ts : List Token) : List Lexeme := ts.flatMap Token.lexemes

@[simp] theorem lexemesOf_nil : lexemesOf [] = [] := rfl

@[simp] theorem lexemesOf_cons (t : Token) (ts : List Token) : lexemesOf (t :: ts) = t.lexemes ++ lexemesOf ts :=
  List.flatMap_cons

@[simp] theorem lexemesOf_append (ts us : List Token) : lexemesOf (ts ++ us) = lexemesOf ts ++ lexemesOf us :=
  List.flatMap_append

variable {d : Dialect}

/-- Reading a text from one reading leads to another, and on the way the lexemes are read that the text adds. -/
def Passes (d : Dialect) (r : Reading) (text : List Char) (after : Reading) (added : List Lexeme) : Prop :=
  ∃ out, (∀ more, d.lexFrom r (text ++ more) = out ++ d.lexFrom after more) ∧
    out ++ after.lexemes = r.lexemes ++ added

namespace Passes

variable {r middle after : Reading} {text more : List Char} {ls ms : List Lexeme}

theorem nil : Passes d r [] r [] := ⟨[], fun _ => rfl, (List.append_nil _).symm⟩

theorem append (first : Passes d r text middle ls) (second : Passes d middle more after ms) :
    Passes d r (text ++ more) after (ls ++ ms) := by
  obtain ⟨out, reads, same⟩ := first
  obtain ⟨further, readsOn, also⟩ := second
  refine ⟨out ++ further, fun rest => ?_, ?_⟩
  · rw [List.append_assoc, reads, readsOn, List.append_assoc]
  · rw [List.append_assoc, also, ← List.append_assoc, same, List.append_assoc]

theorem lexFrom_extend {cs : List Char} (reads : cs.foldlM (Reading.extend d) r = some after) (more : List Char) :
    d.lexFrom r (cs ++ more) = d.lexFrom after more := by
  induction cs generalizing r with
  | nil =>
    cases reads
    rfl
  | cons c cs ih =>
    rw [List.foldlM_cons] at reads
    obtain ⟨next, extended, reads⟩ := Option.bind_eq_some_iff.mp reads
    rw [List.cons_append, Dialect.lexFrom, extended]
    exact ih reads

/-- A lexeme that what is read before it does not run into. -/
theorem piece {c : Char} {cs : List Char} (stops : r.extend d c = none)
    (reads : cs.foldlM (Reading.extend d) (.start d c) = some after) : Passes d r (c :: cs) after after.lexemes := by
  refine ⟨r.lexemes, fun more => ?_, rfl⟩
  rw [List.cons_append, Dialect.lexFrom, stops]
  exact congrArg _ (lexFrom_extend reads more)

end Passes

/-- A character that ends whatever is read outside of quotation marks. -/
def isEnder (c : Char) : Bool := [' ', '.', ',', '*', '(', ')'].contains c

theorem isEnder_iff {c : Char} : isEnder c = true ↔ c = ' ' ∨ c = '.' ∨ c = ',' ∨ c = '*' ∨ c = '(' ∨ c = ')' := by
  simp [isEnder]

/-- What has been read ends where something loose follows and, unless a tight token was the last one, wherever
something follows. Behind a tight token the text's last character asks for a space. -/
structure Reading.Behind (d : Dialect) (afterTight : Bool) (last : Option Char) (r : Reading) : Prop where
  ender : ∀ c, isEnder c = true → r.extend d c = none
  any : afterTight = false → ∀ c, r.extend d c = none
  solid : (∃ c, last = some c ∧ Solid c) ∨ ∀ c, r.extend d c = none

namespace Reading

theorem Behind.ofNone {r : Reading} (none : ∀ c, r.extend d c = none) (b : Bool) (last : Option Char) :
    r.Behind d b last :=
  ⟨fun c _ => none c, fun _ => none, .inr none⟩

theorem start_word {c : Char} (char : wordChar c = true) : start d c = word [c] := by
  obtain ⟨quote, place⟩ := d.ne_marks (isPlain_of_wordChar char)
  have space : c ≠ ' ' := by
    rintro rfl
    revert char
    decide
  rw [start, if_neg space, if_neg quote, if_neg place, if_pos char]

theorem start_sign {c : Char} (char : signChar c = true) : start d c = sign [c] := by
  rcases signChar_iff.mp char with rfl | rfl | rfl | rfl
  all_goals cases d <;> rfl

theorem start_point {c : Char} (ender : isEnder c = true) (visible : c ≠ ' ') : start d c = point c := by
  rcases isEnder_iff.mp ender with rfl | rfl | rfl | rfl | rfl | rfl
  · exact absurd rfl visible
  all_goals cases d <;> rfl

theorem extend_word (read : List Char) {c : Char} (char : wordChar c = true) :
    extend d (word read) c = some (word (read ++ [c])) := by
  rw [extend, if_pos char]

theorem extend_sign (read : List Char) {c : Char} (char : signChar c = true) :
    extend d (sign read) c = some (sign (read ++ [c])) := by
  rw [extend, if_pos char]

/-- A text of characters of one kind is read in one piece. -/
theorem reads_characters {kind : Char → Bool} {piece : List Char → Reading}
    (starts : ∀ {c}, kind c = true → start d c = piece [c])
    (readsNext : ∀ read {c}, kind c = true → extend d (piece read) c = some (piece (read ++ [c])))
    {s : String} (filled : s ≠ "") (chars : ∀ c ∈ s.toList, kind c = true) :
    ∃ c cs, s.toList = c :: cs ∧ cs.foldlM (extend d) (start d c) = some (piece s.toList) := by
  have readsOn (cs : List Char) (read : List Char) (others : ∀ c ∈ cs, kind c = true) :
      cs.foldlM (extend d) (piece read) = some (piece (read ++ cs)) := by
    induction cs generalizing read with
    | nil => rw [List.append_nil]; rfl
    | cons c cs ih =>
      obtain ⟨own, others⟩ := List.forall_mem_cons.mp others
      rw [List.foldlM_cons, readsNext read own, Option.bind_eq_bind, Option.bind_some, ih _ others, List.append_assoc]
      rfl
  cases text : s.toList with
  | nil => exact absurd (String.toList_eq_nil_iff.mp text) filled
  | cons c cs =>
    rw [text] at chars
    obtain ⟨own, others⟩ := List.forall_mem_cons.mp chars
    exact ⟨c, cs, rfl, by rw [starts own, readsOn cs [c] others, List.singleton_append]⟩

theorem extend_quoted_mark (read : List Char) : extend d (quoted read) d.quoteMark = some (closed read) := by
  rw [extend, if_pos rfl]

theorem extend_closed_mark (read : List Char) :
    extend d (closed read) d.quoteMark = some (quoted (read ++ [d.quoteMark])) := by
  rw [extend, if_pos rfl]

/-- A mark that is written twice is read as one. -/
theorem foldlM_doubled (cs read : List Char) :
    (doubled d.quoteMark cs ++ [d.quoteMark]).foldlM (extend d) (quoted read) = some (closed (read ++ cs)) := by
  induction cs generalizing read with
  | nil =>
    rw [doubled, List.nil_append, List.append_nil, List.foldlM_cons, extend_quoted_mark]
    rfl
  | cons c cs ih =>
    unfold doubled
    by_cases mark : c = d.quoteMark
    · rw [if_pos mark, List.cons_append, List.cons_append, List.foldlM_cons, extend_quoted_mark, Option.bind_eq_bind,
        Option.bind_some, List.foldlM_cons, extend_closed_mark, Option.bind_eq_bind, Option.bind_some, ih, mark,
        List.append_assoc]
      rfl
    · have reads : extend d (quoted read) c = some (quoted (read ++ [c])) := by rw [extend, if_neg mark]
      rw [if_neg mark, List.cons_append, List.foldlM_cons, reads, Option.bind_eq_bind, Option.bind_some, ih,
        List.append_assoc]
      rfl

theorem foldlM_digits {cs : List Char} (numbers : d.numbersPlaceholders = true) (digits : ∀ c ∈ cs, c.isDigit = true) :
    cs.foldlM (extend d) placeholder = some placeholder := by
  induction cs with
  | nil => rfl
  | cons c cs ih =>
    obtain ⟨own, others⟩ := List.forall_mem_cons.mp digits
    rw [List.foldlM_cons, extend, numbers, own, Bool.and_self, if_pos rfl]
    exact ih others

end Reading

theorem Token.closes_of_isTight {t : Token} (kind : t.isTight = true) : t.closes = true := by
  have ends {s : String} {char : Char → Bool} (filled : s ≠ "") (chars : ∀ c ∈ s.toList, char c = true)
      (apart : char ' ' = false ∧ char '(' = false) :
      (s.toList.getLast?.any fun c => c != ' ' && c != '(') = true := by
    cases last : s.toList.getLast? with
    | none => exact absurd (String.toList_eq_nil_iff.mp (List.getLast?_eq_none_iff.mp last)) filled
    | some c =>
      have own := chars c (List.mem_of_getLast? last)
      simp only [Option.any_some, Bool.and_eq_true, bne_iff_ne]
      constructor
      · rintro rfl
        rw [apart.1] at own
        cases own
      · rintro rfl
        rw [apart.2] at own
        cases own
  cases t with
  | space => cases kind
  | word s =>
    simp only [isTight, Bool.and_eq_true, bne_iff_ne, List.all_eq_true] at kind
    exact ends kind.1 kind.2 (by decide)
  | symbol s =>
    simp only [isTight, Bool.and_eq_true, bne_iff_ne, List.all_eq_true] at kind
    exact ends kind.1 kind.2 (by decide)
  | identifier | value => rfl

/-- The text of a tight token is read as its lexeme. -/
theorem Token.reads_tight {t : Token} (kind : t.isTight = true) (last : Option Char) (n : Nat) :
    ∃ c cs after, t.written d last n = c :: cs ∧ cs.foldlM (Reading.extend d) (.start d c) = some after ∧
      after.lexemes = t.lexemes ∧ ∀ c, isEnder c = true → after.extend d c = none := by
  have word {s : String} (filled : s ≠ "") (chars : ∀ c ∈ s.toList, wordChar c = true) :
      ∃ c cs after, s.toList = c :: cs ∧ cs.foldlM (Reading.extend d) (.start d c) = some after ∧
        after.lexemes = [.word s] ∧ ∀ c, isEnder c = true → after.extend d c = none := by
    obtain ⟨c, cs, text, reads⟩ := Reading.reads_characters (d := d) Reading.start_word Reading.extend_word filled chars
    refine ⟨c, cs, _, text, reads, by rw [Reading.lexemes, String.ofList_toList], fun c ender => ?_⟩
    rcases isEnder_iff.mp ender with rfl | rfl | rfl | rfl | rfl | rfl <;> rfl
  cases t with
  | space => cases kind
  | word s =>
    simp only [isTight, Bool.and_eq_true, bne_iff_ne, List.all_eq_true] at kind
    exact word kind.1 kind.2
  | symbol s =>
    simp only [isTight, Bool.and_eq_true, bne_iff_ne, List.all_eq_true] at kind
    obtain ⟨c, cs, text, reads⟩ := Reading.reads_characters (d := d) Reading.start_sign Reading.extend_sign kind.1 kind.2
    refine ⟨c, cs, _, text, reads, by rw [Reading.lexemes, String.ofList_toList, lexemes], fun c ender => ?_⟩
    rcases isEnder_iff.mp ender with rfl | rfl | rfl | rfl | rfl | rfl <;> rfl
  | identifier name =>
    refine ⟨d.quoteMark, doubled d.quoteMark name.toList ++ [d.quoteMark], .closed name.toList, ?_, ?_, ?_,
      fun c ender => ?_⟩
    · rw [written, Dialect.quoted, String.toList_ofList, List.cons_append]
    · have start : Reading.start d d.quoteMark = .quoted [] := by cases d <;> rfl
      rw [start, Reading.foldlM_doubled, List.nil_append]
    · rw [Reading.lexemes, String.ofList_toList, lexemes]
    · rcases isEnder_iff.mp ender with rfl | rfl | rfl | rfl | rfl | rfl
      all_goals cases d <;> rfl
  | value v =>
    cases null : v.isNull with
    | true =>
      have text : "NULL".toList = ['N', 'U', 'L', 'L'] := rfl
      rw [written, if_pos null, lexemes, if_pos null, ← text]
      exact word (by decide) (List.all_eq_true.mp (by decide))
    | false =>
      rw [written, null, if_neg Bool.false_ne_true, lexemes, null, if_neg Bool.false_ne_true,
        Dialect.placeholder_toList]
      have start : Reading.start d d.placeholderMark = .placeholder := by cases d <;> rfl
      refine ⟨_, _, .placeholder, rfl, ?_, rfl, fun c ender => ?_⟩
      · rw [start]
        cases numbers : d.numbersPlaceholders with
        | true =>
          rw [if_pos rfl]
          exact Reading.foldlM_digits numbers fun c member =>
            Nat.isDigit_of_mem_toDigits (by decide) (by decide) member
        | false => rw [if_neg Bool.false_ne_true]; rfl
      · rcases isEnder_iff.mp ender with rfl | rfl | rfl | rfl | rfl | rfl
        all_goals simp [Reading.extend, Char.isDigit]

/-- Tokens that are written behind something read are read as their lexemes. -/
def Readable (d : Dialect) (r : Reading) (last : Option Char) (n : Nat) (ts : List Token) : Prop :=
  ∃ after, Passes d r (Writer.written d last n ts) after (lexemesOf ts) ∧
    after.Behind d true ((Writer.written d last n ts).getLast?.or last)

theorem Readable.append {r m : Reading} {last : Option Char} {n : Nat} {ts us : List Token}
    (first : Passes d r (Writer.written d last n ts) m (lexemesOf ts))
    (second : Readable d m ((Writer.written d last n ts).getLast?.or last) (n + (Token.params ts).length) us) :
    Readable d r last n (ts ++ us) := by
  obtain ⟨after, passes, behind⟩ := second
  rw [Readable, Writer.written_append, lexemesOf_append, List.getLast?_append, Option.or_assoc]
  exact ⟨after, first.append passes, behind⟩

theorem Writer.written_singleton (d : Dialect) (last : Option Char) (n : Nat) (t : Token) :
    written d last n [t] = t.written d last n := List.append_nil _

/-- A point, a comma, a star or a parenthesis is read at once. -/
theorem Readable.point {s : String} {c : Char} (text : s = String.ofList [c]) (ender : isEnder c = true)
    (visible : c ≠ ' ') {r : Reading} (stops : r.extend d c = none) {last : Option Char} {n : Nat} {rest : List Token}
    (readable : Readable d (.point c) (some c) n rest) : Readable d r last n (.symbol s :: rest) := by
  have written : Writer.written d last n [.symbol s] = [c] := by
    rw [Writer.written_singleton, Token.written, text, String.toList_ofList]
  have lexemes : lexemesOf [.symbol s] = (Reading.point c).lexemes := by
    rw [lexemesOf_cons, Token.lexemes, text]
    rfl
  rw [← List.singleton_append]
  refine .append (m := .point c) ?_ ?_
  · rw [written, lexemes]
    refine .piece stops ?_
    rw [Reading.start_point ender visible]
    rfl
  · rw [written]
    exact readable

/-- A space is not written behind another one or an opening parenthesis. -/
theorem Readable.space {r : Reading} {last : Option Char} {n : Nat} {rest : List Token} {b : Bool}
    (behind : r.Behind d b last) (readable : ∀ r last, r.Behind d false last → Readable d r last n rest) :
    Readable d r last n (.space :: rest) := by
  have written : Writer.written d last n [.space] = [' '] ∨
      Writer.written d last n [.space] = [] ∧ ∀ c, r.extend d c = none := by
    rcases behind.solid with ⟨c, rfl, solid⟩ | none
    · exact .inl (Writer.written_space d n [] solid)
    · rw [Writer.written_singleton]
      simp only [Token.written]
      split
      all_goals simp [none]
  rw [← List.singleton_append]
  rcases written with text | ⟨text, none⟩
  · refine .append (m := .blank) ?_ ?_
    · rw [text]
      exact .piece (behind.ender ' ' rfl) rfl
    · rw [text]
      exact readable _ _ (.ofNone (fun _ => rfl) _ _)
  · refine .append (m := r) ?_ ?_
    · rw [text]
      exact .nil
    · rw [text]
      exact readable _ _ (.ofNone none _ _)

theorem Readable.tight {t : Token} (kind : t.isTight = true) {r : Reading} {last : Option Char} {n : Nat}
    {rest : List Token} (behind : r.Behind d false last)
    (readable : ∀ r last n, r.Behind d true last → Readable d r last n rest) : Readable d r last n (t :: rest) := by
  obtain ⟨c, cs, middle, text, reads, lexemes, ender⟩ := Token.reads_tight (d := d) kind last n
  obtain ⟨c', ends, solid⟩ := t.last_written d last n (Token.closes_of_isTight kind)
  rw [← List.singleton_append]
  refine .append (m := middle) ?_ (readable _ _ _ ⟨ender, fun none => (nomatch none), .inl ⟨c', ?_, solid⟩⟩)
  · rw [Writer.written_singleton, text, lexemesOf_cons, lexemesOf_nil, List.append_nil, ← lexemes]
    exact .piece (behind.any rfl c) reads
  · rw [Writer.written_singleton, ends, Option.some_or]

/-- Tidy tokens are read as their lexemes, one after the other. -/
theorem Tidy.readable {b : Bool} {ts : List Token} (tidy : Tidy b ts) :
    ∀ (r : Reading) (last : Option Char) (n : Nat), r.Behind d b last → Readable d r last n ts := by
  have point (c : Char) (b : Bool) : (Reading.point c).Behind d b (some c) := .ofNone (fun _ => rfl) _ _
  induction tidy with
  | nil =>
    intro r last n behind
    exact ⟨r, .nil, fun c => behind.ender c, fun none => (nomatch none), behind.solid⟩
  | @loose b t rest kind _ ih =>
    intro r last n behind
    cases t with
    | space => exact .space behind fun r last => ih r last n
    | symbol s =>
      simp only [Token.isLoose, Bool.or_eq_true, beq_iff_eq, or_assoc] at kind
      rcases kind with text | text | text
      · exact .point text rfl (by decide) (behind.ender _ rfl) (ih _ _ _ (point '.' false))
      · exact .point text rfl (by decide) (behind.ender _ rfl) (ih _ _ _ (point ',' false))
      · exact .point text rfl (by decide) (behind.ender _ rfl) (ih _ _ _ (point '*' false))
    | word | identifier | value => cases kind
  | @tight t rest kind _ ih =>
    intro r last n behind
    exact .tight kind behind ih
  | @group b inner rest _ _ inside outside =>
    intro r last n behind
    rw [parenthesized, List.cons_append, List.cons_append, List.append_assoc, List.singleton_append]
    refine .point rfl rfl (by decide) (behind.ender '(' rfl) ?_
    obtain ⟨middle, passes, ends⟩ := inside _ _ n (point '(' false)
    exact .append passes (.point rfl rfl (by decide) (ends.ender ')' rfl) (outside _ _ _ (point ')' false)))

/-- The text of tidy tokens has their lexemes, whatever it is written behind. -/
theorem lexemes_written {b : Bool} {ts : List Token} (tidy : Tidy b ts) {last : Option Char} (n : Nat) :
    d.lexemes (Writer.written d last n ts) = lexemesOf ts := by
  obtain ⟨after, ⟨out, reads, same⟩, _⟩ := tidy.readable (d := d) .blank last n (.ofNone (fun _ => rfl) _ _)
  have whole := reads []
  rw [List.append_nil] at whole
  rw [Dialect.lexemes, whole, Dialect.lexFrom, same]
  rfl

theorem Statement.lexemes_ofTokens {b : Bool} {ts : List Token} (tidy : Tidy b ts) :
    d.lexemes (ofTokens d ts).sql.toList = lexemesOf ts := by
  rw [ofTokens_eq, String.toList_ofList, lexemes_written tidy]

end EntityMapper
