import EntityMapper.Proofs.Sql.Tables

namespace EntityMapper

/-- Where a reader of a text stands: outside of identifiers, inside of one, or behind a placeholder whose number may go
on. -/
inductive RefillState where
  | plain
  | quoted
  | number
  deriving DecidableEq, Repr, Inhabited

namespace Dialect

/-- A text with its placeholders outside of quoted identifiers replaced by others, one by one. -/
def refill (d : Dialect) : RefillState → List (List Char) → List Char → List Char
  | _, _, [] => []
  | state, marks, c :: rest =>
    if state = .quoted then c :: d.refill (if c = d.quoteMark then .plain else .quoted) marks rest
    else if state = .number ∧ c.isDigit then d.refill .number marks rest
    else if c = d.quoteMark then c :: d.refill .quoted marks rest
    else if c = d.placeholderMark then
      marks.headD [] ++ d.refill (if d.numbersPlaceholders then .number else .plain) marks.tail rest
    else c :: d.refill .plain marks rest

def refilled (d : Dialect) (marks : List String) (sql : String) : String :=
  String.ofList (d.refill .plain (marks.map String.toList) sql.toList)

variable (d : Dialect) (marks : List (List Char))

theorem refill_cons (c : Char) (rest : List Char) :
    d.refill .plain marks (c :: rest) =
      if c = d.quoteMark then c :: d.refill .quoted marks rest
      else if c = d.placeholderMark then
        marks.headD [] ++ d.refill (if d.numbersPlaceholders then .number else .plain) marks.tail rest
      else c :: d.refill .plain marks rest := by
  rw [refill, if_neg (by decide), if_neg fun both => nomatch both.1]

theorem refill_plain {s : List Char} (plain : s.all isPlain = true) (rest : List Char) :
    d.refill .plain marks (s ++ rest) = s ++ d.refill .plain marks rest := by
  induction s with
  | nil => rfl
  | cons c s ih =>
    simp only [List.all_cons, Bool.and_eq_true] at plain
    obtain ⟨quote, place⟩ := d.ne_marks plain.1
    rw [List.cons_append, refill_cons, if_neg quote, if_neg place, ih plain.2, List.cons_append]

theorem refill_quoted (identifier : String) (rest : List Char) :
    d.refill .plain marks ((d.quoted identifier).toList ++ rest) =
      (d.quoted identifier).toList ++ d.refill .plain marks rest := by
  have inside (cs : List Char) : d.refill .quoted marks (doubled d.quoteMark cs ++ d.quoteMark :: rest) =
      doubled d.quoteMark cs ++ d.quoteMark :: d.refill .plain marks rest := by
    induction cs with
    | nil => rw [doubled, List.nil_append, List.nil_append, refill, if_pos rfl, if_pos rfl]
    | cons c cs ih =>
      unfold doubled
      by_cases mark : c = d.quoteMark
      · rw [if_pos mark, List.cons_append, List.cons_append, refill, if_pos rfl, if_pos rfl, refill_cons,
          if_pos rfl, ih]
        rfl
      · rw [if_neg mark, List.cons_append, refill, if_pos rfl, if_neg mark, ih]
        rfl
  rw [quoted, String.toList_ofList, List.cons_append, List.cons_append, List.append_assoc, refill_cons, if_pos rfl,
    List.singleton_append, inside, List.cons_append, List.append_assoc, List.singleton_append]

/-- A number that has ended reads like nothing. -/
theorem refill_number {rest : List Char} (ends : Ends rest) :
    d.refill .number marks rest = d.refill .plain marks rest := by
  cases rest with
  | nil => rfl
  | cons c rest =>
    have noDigit : ¬(RefillState.number = .number ∧ c.isDigit = true) := fun digit => by
      rw [ends c rfl] at digit
      cases digit.2
    rw [refill_cons, refill, if_neg (by decide), if_neg noDigit]

theorem refill_placeholder (mark : List Char) (n : Nat) {rest : List Char}
    (ends : d.numbersPlaceholders = true → Ends rest) :
    d.refill .plain (mark :: marks) ((d.placeholder n).toList ++ rest) = mark ++ d.refill .plain marks rest := by
  have apart : d.placeholderMark ≠ d.quoteMark := by cases d <;> decide
  have digits {s : List Char} (digits : ∀ c ∈ s, c.isDigit = true) :
      d.refill .number marks (s ++ rest) = d.refill .number marks rest := by
    induction s with
    | nil => rfl
    | cons c s ih =>
      obtain ⟨own, others⟩ := List.forall_mem_cons.mp digits
      rw [List.cons_append, refill, if_neg (by decide), if_pos ⟨rfl, own⟩, ih others]
  rw [placeholder_toList, List.cons_append, refill_cons, if_neg apart, if_pos rfl]
  cases numbers : d.numbersPlaceholders with
  | false => rfl
  | true =>
    have number : ∀ c ∈ Nat.toDigits 10 n, c.isDigit = true := fun c member =>
      Nat.isDigit_of_mem_toDigits (by decide) (by decide) member
    rw [if_pos rfl, if_pos rfl, List.tail_cons, digits number, d.refill_number _ (ends numbers)]
    rfl

end Dialect

/-- Two statements differ in their placeholders only. -/
structure Statement.Respells (d e : Dialect) (st other : Statement) : Prop where
  params : other.params = st.params
  placeholders : (e.placeholdersIn other.sql).length = (d.placeholdersIn st.sql).length
  text : d.refilled (e.placeholdersIn other.sql) st.sql = other.sql

/-- Behind two texts the same spaces are written. -/
def Alike (last other : Option Char) : Prop :=
  last = other ∨ ∃ c c', last = some c ∧ other = some c' ∧ Solid c ∧ Solid c'

section Tokens

variable {d e : Dialect} {last other : Option Char}

/-- Whatever is no placeholder is written alike where identifiers are. -/
theorem Token.written_of_alike (quote : d.quoteMark = e.quoteMark) (alike : Alike last other) (n : Nat) {t : Token}
    (none : t.param? = none) : t.written d last n = t.written e other n := by
  cases t with
  | space =>
    rcases alike with rfl | ⟨c, c', rfl, rfl, solid, solid'⟩
    · rfl
    · rw [written_space_of_solid d n solid, written_space_of_solid e n solid']
  | word s => rfl
  | symbol s => rfl
  | identifier name => simp only [written, Dialect.quoted, quote]
  | value v =>
    cases null : v.isNull with
    | true => rw [written, written, if_pos null, if_pos null]
    | false =>
      rw [param?, null, if_neg Bool.false_ne_true] at none
      cases none

/-- The placeholders of what one dialect writes, replaced by those of another, make up what the other writes. -/
theorem Writer.refill_written (quote : d.quoteMark = e.quoteMark) {ts : List Token} {afterValue : Bool}
    (clean : Clean afterValue ts) (alike : Alike last other) (n : Nat) :
    d.refill .plain ((List.range' (n + 1) (Token.params ts).length).map fun i => (e.placeholder i).toList)
      (written d last n ts) = written e other n ts := by
  induction ts generalizing afterValue last other n with
  | nil => rfl
  | cons t rest ih =>
    obtain ⟨plain, _, others⟩ := clean
    have keep (none : t.param? = none) (skip : ∀ marks more,
        d.refill .plain marks (t.written d last n ++ more) = t.written d last n ++ d.refill .plain marks more) :
        d.refill .plain
          ((List.range' (n + 1) (Token.params (t :: rest)).length).map fun i => (e.placeholder i).toList)
          (written d last n (t :: rest)) = written e other n (t :: rest) := by
      have fewer : Token.params (t :: rest) = Token.params rest := List.filterMap_cons_none none
      have same := Token.written_of_alike quote alike n none
      have behind : Alike ((t.written d last n).getLast?.or last) ((t.written e other n).getLast?.or other) := by
        rw [same]
        cases (t.written e other n).getLast? with
        | none => exact alike
        | some c => exact .inl rfl
      rw [written, written, skip, fewer, ← same, none]
      rw [same] at behind ⊢
      exact congrArg _ (ih others behind n)
    cases t with
    | space =>
      refine keep rfl fun marks more => d.refill_plain marks ?_ more
      simp only [Token.written]
      split <;> decide
    | word s => exact keep rfl fun marks more => d.refill_plain marks plain more
    | symbol s => exact keep rfl fun marks more => d.refill_plain marks (Bool.and_eq_true_iff.mp plain).1 more
    | identifier name => exact keep rfl fun marks more => d.refill_quoted marks name more
    | value v =>
      cases null : v.isNull with
      | true =>
        refine keep (by rw [Token.param?, if_pos null]) fun marks more => d.refill_plain marks ?_ more
        rw [Token.written, if_pos null]
        decide
      | false =>
        have text (d : Dialect) (last : Option Char) :
            (Token.value v).written d last n = (d.placeholder (n + 1)).toList := by
          rw [Token.written, null, if_neg Bool.false_ne_true]
        have added : (Token.value v).param? = some v := by rw [Token.param?, null, if_neg Bool.false_ne_true]
        have more : Token.params (.value v :: rest) = v :: Token.params rest := List.filterMap_cons_some added
        obtain ⟨c, ends, solid⟩ := Token.last_written d last n (t := .value v) rfl
        obtain ⟨c', ends', solid'⟩ := Token.last_written e other n (t := .value v) rfl
        rw [written, written, ends, ends', more, added, text d, text e, Option.some_or, Option.some_or]
        rw [List.length_cons, List.range'_succ, List.map_cons, d.refill_placeholder]
        · exact congrArg _ (ih others (.inr ⟨c, c', rfl, rfl, solid, solid'⟩) (n + 1))
        · exact fun _ => ends_written others solid.1 solid.2 _

/-- Two dialects that quote alike write the same tokens to statements that differ in their placeholders only. -/
theorem Statement.respells_ofTokens (quote : d.quoteMark = e.quoteMark) {ts : List Token} (clean : Clean false ts) :
    (ofTokens d ts).Respells d e (ofTokens e ts) := by
  have placeholders (f : Dialect) : f.placeholdersIn (ofTokens f ts).sql =
      (List.range' 1 (Token.params ts).length).map f.placeholder := by
    have aligned := aligned_ofTokens f clean
    rw [aligned.placeholders, aligned.params]
  refine ⟨?_, ?_, ?_⟩
  · rw [ofTokens_eq, ofTokens_eq]
  · rw [placeholders, placeholders, List.length_map, List.length_map]
  · rw [placeholders, Dialect.refilled, List.map_map, ofTokens_eq, ofTokens_eq, String.toList_ofList]
    exact congrArg String.ofList (Writer.refill_written quote clean (.inl rfl) 0)

/-- A mark inside an identifier is no placeholder. -/
example : Dialect.ansi.refilled ["$1", "$2"] "SELECT \"a?\" WHERE ? < ?" = "SELECT \"a?\" WHERE $1 < $2" := by decide

/-- Two dialects that quote alike and have the same placeholders write the same tokens to the same statement. -/
theorem Statement.ofTokens_congr (quote : d.quoteMark = e.quoteMark) (placeholder : d.placeholder = e.placeholder)
    (ts : List Token) : ofTokens d ts = ofTokens e ts := by
  have write : Token.write d = Token.write e := by
    funext w t
    cases t with
    | space | word | symbol => rfl
    | identifier name => simp only [Token.write, Writer.identifier, Dialect.quoted, quote]
    | value v => cases v <;> simp only [Token.write, Writer.value, placeholder]
  rw [ofTokens, ofTokens, Writer.tokens, Writer.tokens, write]

end Tokens

section Clauses

variable {d e : Dialect}

/-- Terms are written alike where the subqueries in them are. -/
theorem Term.tokens_congr : ∀ t : Term, (∀ u, t.select? = some u → u.tokens d false = u.tokens e false) →
    t.tokens d = t.tokens e
  | .column _ _, _ => rfl
  | .literal _, _ => rfl
  | .aggregate f argument distinct, inner => by
    have same := Term.tokens_congr argument inner
    rw [tokens, tokens, same]
  | .subquery s, inner => by rw [tokens, tokens, inner s rfl]
termination_by structural t => t

theorem termTokens_congr {ts : List Term} (same : ∀ t ∈ ts, t.tokens d = t.tokens e) :
    termTokens d ts = termTokens e ts := by
  induction ts with
  | nil => rfl
  | cons t rest ih =>
    obtain ⟨own, others⟩ := List.forall_mem_cons.mp same
    rw [termTokens, termTokens, own, ih others]

mutual

/-- Conditions are written alike where their terms and the queries in them are. -/
theorem Condition.tokens_congr : ∀ c : Condition, (∀ t ∈ c.terms, t.tokens d = t.tokens e) →
    (∀ u ∈ c.selects, u.tokens d false = u.tokens e false) → c.tokens d = c.tokens e
  | .compare left op right, terms, _ => by
    simp only [Condition.terms, List.forall_mem_cons] at terms
    rw [Condition.tokens, Condition.tokens, terms.1, terms.2.1]
  | .between term low high, terms, _ => by
    simp only [Condition.terms, List.forall_mem_cons] at terms
    rw [Condition.tokens, Condition.tokens, terms.1, terms.2.1, terms.2.2.1]
  | .constant _, _, _ => rfl
  | .inValues term values negated, terms, _ => by
    obtain ⟨own, others⟩ := List.forall_mem_cons.mp terms
    rw [Condition.tokens, Condition.tokens, own, termTokens_congr others]
  | .inSelect term select negated, terms, selects => by
    rw [Condition.tokens, Condition.tokens, terms term List.mem_cons_self, selects select List.mem_cons_self]
  | .isNull term negated, terms, _ => by rw [Condition.tokens, Condition.tokens, terms term List.mem_cons_self]
  | .exists select negated, _, selects => by rw [Condition.tokens, Condition.tokens, selects select List.mem_cons_self]
  | .and items, terms, selects => by
    rw [Condition.tokens, Condition.tokens, Condition.tokensOfAll_congr items terms selects]
  | .or items, terms, selects => by
    rw [Condition.tokens, Condition.tokens, Condition.tokensOfAll_congr items terms selects]
  | .not inner, terms, selects => by
    have same := Condition.tokens_congr inner terms selects
    unfold Condition.tokens
    split
    · rw [same]
    · rw [same]
    · rw [same]
termination_by structural c => c

theorem Condition.tokensOfAll_congr : ∀ cs : List Condition, (∀ t ∈ Condition.termsOfAll cs, t.tokens d = t.tokens e) →
    (∀ u ∈ Condition.selectsOfAll cs, u.tokens d false = u.tokens e false) → conditionTokens d cs = conditionTokens e cs
  | [], _, _ => rfl
  | c :: rest, terms, selects => by
    obtain ⟨own, others⟩ := List.forall_mem_append.mp terms
    obtain ⟨inside, deeper⟩ := List.forall_mem_append.mp selects
    rw [conditionTokens, conditionTokens, Condition.tokens_congr c own inside,
      Condition.tokensOfAll_congr rest others deeper]
termination_by structural cs => cs

end

theorem conditionTokens_congr {cs : List Condition} (same : ∀ c ∈ cs, c.tokens d = c.tokens e) :
    conditionTokens d cs = conditionTokens e cs := by
  induction cs with
  | nil => rfl
  | cons c rest ih =>
    obtain ⟨own, others⟩ := List.forall_mem_cons.mp same
    rw [conditionTokens, conditionTokens, own, ih others]

theorem outputColumns_congr {os : List Output} (same : ∀ t ∈ os.filterMap (·.term?), t.tokens d = t.tokens e) :
    outputColumns d os = outputColumns e os := by
  induction os with
  | nil => rfl
  | cons o rest ih =>
    cases o with
    | entity a => rw [outputColumns, outputColumns, ih same]; rfl
    | term t =>
      obtain ⟨own, others⟩ := List.forall_mem_cons.mp same
      rw [outputColumns, outputColumns, Output.columns, Output.columns, own, ih others]

theorem joinTokens_congr {js : List JoinClause} (same : ∀ c ∈ js.filterMap (·.condition), c.tokens d = c.tokens e) :
    joinTokens d js = joinTokens e js := by
  induction js with
  | nil => rfl
  | cons j rest ih =>
    obtain ⟨kind, target, link, condition⟩ := j
    cases condition with
    | none => rw [joinTokens, joinTokens, ih same]; rfl
    | some c =>
      obtain ⟨own, others⟩ := List.forall_mem_cons.mp same
      rw [joinTokens, joinTokens, ih others, JoinClause.tokens, JoinClause.tokens, conditionOfJoin, conditionOfJoin, own]

theorem sortTokens_congr (nulls : d.ordersNulls = e.ordersNulls) {ks : List SortKey}
    (same : ∀ t ∈ ks.map (·.term), t.tokens d = t.tokens e) : sortTokens d ks = sortTokens e ks := by
  induction ks with
  | nil => rfl
  | cons k rest ih =>
    obtain ⟨own, others⟩ := List.forall_mem_cons.mp same
    obtain ⟨term, direction, placement⟩ := k
    have ordered (key : List Token) :
        orderingTokens d key direction placement = orderingTokens e key direction placement := by
      unfold orderingTokens
      rw [nulls]
    rw [sortTokens, sortTokens, ih others, SortKey.tokens, SortKey.tokens, own, ordered]

namespace Select

variable {s : Select}

/-- The conditions of a query are written alike where its subqueries are. -/
theorem conditions_congr (inner : ∀ u ∈ s.inner, u.tokens d false = u.tokens e false) :
    (∀ t ∈ s.terms, t.tokens d = t.tokens e) ∧ ∀ c ∈ s.conditions, c.tokens d = c.tokens e := by
  have terms : ∀ t ∈ s.terms, t.tokens d = t.tokens e := fun t member => t.tokens_congr fun u found =>
    inner u (List.mem_append_left _ (List.mem_filterMap.mpr ⟨t, member, found⟩))
  refine ⟨terms, fun c member => c.tokens_congr (fun t within => terms t ?_) fun u within => inner u ?_⟩
  · have conditional := List.mem_flatMap.mpr ⟨c, member, within⟩
    exact List.mem_append_left _ (List.mem_append_left _ (List.mem_append_right _ conditional))
  · exact List.mem_append_right _ (List.mem_flatMap.mpr ⟨c, member, within⟩)

theorem fromTokens_congr (same : ∀ c ∈ s.conditions, c.tokens d = c.tokens e) : s.fromTokens d = s.fromTokens e := by
  rw [fromTokens, fromTokens, joinTokens_congr fun c member => same c (List.mem_append_left _ member)]

theorem whereTokens_congr (same : ∀ c ∈ s.conditions, c.tokens d = c.tokens e) : s.whereTokens d = s.whereTokens e := by
  rw [whereTokens, whereTokens,
    conditionTokens_congr fun c member => same c (List.mem_append_right _ (List.mem_append_left _ member))]

/-- A query is written alike where its subqueries, its page and its order of nulls are. -/
theorem tokens_congr (nulls : d.ordersNulls = e.ordersNulls)
    (page : pagingTokens d s.limit s.offset = pagingTokens e s.limit s.offset)
    (inner : ∀ u ∈ s.inner, u.tokens d false = u.tokens e false) (aliased : Bool) :
    s.tokens d aliased = s.tokens e aliased := by
  obtain ⟨terms, conditions⟩ := conditions_congr inner
  have listed : ∀ t ∈ s.outputs.filterMap (·.term?), t.tokens d = t.tokens e := fun t member =>
    terms t (List.mem_append_left _ (List.mem_append_left _ (List.mem_append_left _ member)))
  have grouped : ∀ t ∈ s.groups, t.tokens d = t.tokens e := fun t member =>
    terms t (List.mem_append_left _ (List.mem_append_right _ member))
  have ordered : ∀ t ∈ s.orderings.map (·.term), t.tokens d = t.tokens e := fun t member =>
    terms t (List.mem_append_right _ member)
  have restricted : ∀ c ∈ s.havings, c.tokens d = c.tokens e := fun c member =>
    conditions c (List.mem_append_right _ (List.mem_append_right _ member))
  have heads : s.headTokens d aliased = s.headTokens e aliased := by
    rw [headTokens, headTokens, selectList, selectList, outputColumns_congr listed]
  have bodies : s.bodyTokens d = s.bodyTokens e := by
    rw [bodyTokens, bodyTokens, fromTokens_congr conditions, whereTokens_congr conditions, termTokens_congr grouped,
      conditionTokens_congr restricted]
  have ends : s.endTokens d = s.endTokens e := by
    rw [endTokens, endTokens, sortTokens_congr nulls ordered, page]
  rw [tokens_eq, tokens_eq, heads, bodies, ends]

end Select

end Clauses

end EntityMapper
