import EntityMapper.Proofs.Sql.Tables

namespace EntityMapper

/-- Terms and queries stand in texts: each of them inside one of the items. -/
structure Holds (d : Dialect) (items : List (List Token)) (terms : List Term) (selects : List Select) : Prop where
  terms : ∀ t ∈ terms, ∃ item ∈ items, t.tokens d <:+: item
  selects : ∀ s ∈ selects, ∃ item ∈ items, s.tokens d false <:+: item

variable {d : Dialect}

section Infix

variable {item inner : List Token} {items : List (List Token)}

theorem infix_parenthesized (inside : item <:+: inner) : item <:+: parenthesized inner :=
  List.infix_append_of_infix_left (List.infix_cons inside)

theorem infix_flatMap {α : Type} {text : α → List Token} {xs : List α} {x : α} (member : x ∈ xs) :
    text x <:+: xs.flatMap text := by
  rw [List.flatMap_def]
  exact List.infix_of_mem_flatten (List.mem_map_of_mem member)

theorem infix_joined {separator : List Token} (member : item ∈ items) : item <:+: joined separator items := by
  cases items with
  | nil => cases member
  | cons first rest =>
    rw [joined_cons]
    rcases List.mem_cons.mp member with rfl | later
    · exact List.infix_append_left
    · have inside : separator ++ item <:+: rest.flatMap (separator ++ ·) := infix_flatMap later
      exact List.infix_append_of_infix_right (List.infix_append_right.trans inside)

theorem infix_clauseTokens {keywords : List String} {separator : List Token} (member : item ∈ items) :
    item <:+: clauseTokens keywords separator items := by
  unfold clauseTokens
  rw [if_neg (mt List.isEmpty_iff.mp (List.ne_nil_of_mem member))]
  exact List.infix_append_of_infix_right (infix_joined member)

theorem infix_aliasedColumns {columns : List (List Token)} (aliased : Bool) (start : Nat) (member : item ∈ columns) :
    ∃ column ∈ aliasedColumns aliased start columns, item <:+: column := by
  induction columns generalizing start with
  | nil => cases member
  | cons first rest ih =>
    rcases List.mem_cons.mp member with rfl | later
    · refine ⟨_, List.mem_cons_self, ?_⟩
      split
      · exact List.infix_append_of_infix_left List.infix_append_left
      · exact List.infix_rfl
    · obtain ⟨column, inside, own⟩ := ih (start + 1) later
      exact ⟨column, List.mem_cons_of_mem _ inside, own⟩

end Infix

namespace Holds

variable {items more : List (List Token)} {text : List Token} {ts us : List Term} {ss vs : List Select}

theorem nil (items : List (List Token)) : Holds d items [] [] :=
  ⟨fun _ none => absurd none List.not_mem_nil, fun _ none => absurd none List.not_mem_nil⟩

theorem term (t : Term) : Holds d [t.tokens d] [t] [] :=
  ⟨List.forall_mem_singleton.mpr ⟨_, List.mem_cons_self, List.infix_rfl⟩, (nil _).selects⟩

theorem select (s : Select) : Holds d [s.tokens d false] [] [s] :=
  ⟨(nil _).terms, List.forall_mem_singleton.mpr ⟨_, List.mem_cons_self, List.infix_rfl⟩⟩

theorem append (first : Holds d items ts ss) (second : Holds d more us vs) :
    Holds d (items ++ more) (ts ++ us) (ss ++ vs) := by
  have left {part : List Token} : (∃ item ∈ items, part <:+: item) → ∃ item ∈ items ++ more, part <:+: item :=
    fun ⟨item, member, inside⟩ => ⟨item, List.mem_append_left _ member, inside⟩
  have right {part : List Token} : (∃ item ∈ more, part <:+: item) → ∃ item ∈ items ++ more, part <:+: item :=
    fun ⟨item, member, inside⟩ => ⟨item, List.mem_append_right _ member, inside⟩
  constructor
  · exact List.forall_mem_append.mpr
      ⟨fun t member => left (first.terms t member), fun t member => right (second.terms t member)⟩
  · exact List.forall_mem_append.mpr
      ⟨fun s member => left (first.selects s member), fun s member => right (second.selects s member)⟩

/-- What stands in items stands in a text that these are parts of. -/
theorem within (holds : Holds d items ts ss) (inside : ∀ item ∈ items, item <:+: text) : Holds d [text] ts ss := by
  have whole {part : List Token} : (∃ item ∈ items, part <:+: item) → ∃ item ∈ [text], part <:+: item :=
    fun ⟨item, member, own⟩ => ⟨text, List.mem_cons_self, own.trans (inside item member)⟩
  exact ⟨fun t member => whole (holds.terms t member), fun s member => whole (holds.selects s member)⟩

theorem inside (holds : Holds d [item] ts ss) (inside : item <:+: text) : Holds d [text] ts ss :=
  holds.within (List.forall_mem_singleton.mpr inside)

theorem single (holds : Holds d [text] ts ss) :
    (∀ t ∈ ts, t.tokens d <:+: text) ∧ ∀ s ∈ ss, s.tokens d false <:+: text := by
  refine ⟨fun t member => ?_, fun s member => ?_⟩
  · obtain ⟨_, single, own⟩ := holds.terms t member
    exact List.mem_singleton.mp single ▸ own
  · obtain ⟨_, single, own⟩ := holds.selects s member
    exact List.mem_singleton.mp single ▸ own

end Holds

theorem holds_terms (ts : List Term) : Holds d (termTokens d ts) ts [] := by
  induction ts with
  | nil => exact .nil _
  | cons t rest ih => exact (Holds.term t).append ih

/-- A negated condition stands in parentheses, its own or those around it. -/
theorem Condition.infix_not (c : Condition) : c.tokens d <:+: (Condition.not c).tokens d := by
  have around : c.tokens d <:+: [.word "NOT", .space] ++ parenthesized (c.tokens d) :=
    List.infix_append_of_infix_right (infix_parenthesized List.infix_rfl)
  cases c with
  | and items => exact List.infix_append_right
  | or items => exact List.infix_append_right
  | _ => exact around

mutual

theorem Condition.holds : ∀ c : Condition, Holds d [c.tokens d] c.terms c.selects
  | .compare left op right => by
    refine ((Holds.term left).append (.term right)).within
      (List.forall_mem_cons.mpr ⟨?_, List.forall_mem_singleton.mpr ?_⟩)
    · exact List.infix_append_of_infix_left List.infix_append_left
    · exact List.infix_append_right
  | .between term low high => by
    refine (((Holds.term term).append (.term low)).append (.term high)).within
      (List.forall_mem_cons.mpr ⟨?_, List.forall_mem_cons.mpr ⟨?_, List.forall_mem_singleton.mpr ?_⟩⟩)
    · simp only [Condition.tokens, List.append_assoc]
      exact List.infix_append_left
    · simp only [Condition.tokens, List.append_assoc]
      exact List.infix_append_of_infix_right (List.infix_append_of_infix_right List.infix_append_left)
    · exact List.infix_append_right
  | .constant _ => .nil _
  | .inValues term values negated => by
    refine ((Holds.term term).append (holds_terms values)).within (List.forall_mem_cons.mpr ⟨?_, fun item member => ?_⟩)
    · exact List.infix_append_of_infix_left (List.infix_append_of_infix_left List.infix_append_left)
    · exact List.infix_append_of_infix_right (infix_parenthesized (infix_joined member))
  | .inSelect term select negated => by
    refine ((Holds.term term).append (.select select)).within
      (List.forall_mem_cons.mpr ⟨?_, List.forall_mem_singleton.mpr ?_⟩)
    · exact List.infix_append_of_infix_left (List.infix_append_of_infix_left List.infix_append_left)
    · exact List.infix_append_of_infix_right (infix_parenthesized List.infix_rfl)
  | .isNull term negated => (Holds.term term).inside List.infix_append_left
  | .exists select negated =>
    (Holds.select select).inside (List.infix_append_of_infix_right (infix_parenthesized List.infix_rfl))
  | .and items => (Condition.holdsOfAll items).within fun _ member => infix_parenthesized (infix_joined member)
  | .or items => (Condition.holdsOfAll items).within fun _ member => infix_parenthesized (infix_joined member)
  | .not inner => inner.holds.inside inner.infix_not
termination_by structural c => c

theorem Condition.holdsOfAll : ∀ cs : List Condition, Holds d (conditionTokens d cs) (termsOfAll cs) (selectsOfAll cs)
  | [] => .nil _
  | c :: rest => c.holds.append (Condition.holdsOfAll rest)
termination_by structural cs => cs

end

/-- The column that a term is stands in its text. -/
theorem Term.column_rendered : ∀ {t : Term} {owner : String} {path : Path}, t.column? = some (owner, path) →
    columnTokens owner path.column <:+: t.tokens d
  | .column .., _, _, found => by
    cases found
    exact List.infix_rfl
  | .aggregate f argument distinct, _, _, found => by
    have own := Term.column_rendered (t := argument) found
    exact List.infix_cons (infix_parenthesized (List.infix_append_of_infix_right own))

/-- The query that a term is stands in its text. -/
theorem Term.select_rendered : ∀ {t : Term} {s : Select}, t.select? = some s → s.tokens d false <:+: t.tokens d
  | .subquery _, _, found => by
    cases found
    exact infix_parenthesized List.infix_rfl
  | .aggregate f argument distinct, _, found => by
    have own := Term.select_rendered (t := argument) found
    exact List.infix_cons (infix_parenthesized (List.infix_append_of_infix_right own))

theorem Condition.termsOfAll_eq (cs : List Condition) : termsOfAll cs = cs.flatMap terms := by
  induction cs with
  | nil => rfl
  | cons c rest ih => rw [termsOfAll, ih, List.flatMap_cons]

theorem Condition.selectsOfAll_eq (cs : List Condition) : selectsOfAll cs = cs.flatMap selects := by
  induction cs with
  | nil => rfl
  | cons c rest ih => rw [selectsOfAll, ih, List.flatMap_cons]

theorem holds_conditions (cs : List Condition) :
    Holds d (conditionTokens d cs) (cs.flatMap Condition.terms) (cs.flatMap Condition.selects) := by
  rw [← Condition.termsOfAll_eq, ← Condition.selectsOfAll_eq]
  exact Condition.holdsOfAll cs

theorem holds_outputs (os : List Output) : Holds d (outputColumns d os) (os.filterMap (·.term?)) [] := by
  induction os with
  | nil => exact .nil _
  | cons o rest ih =>
    cases o with
    | term t => exact (Holds.term t).append ih
    | entity a => exact (Holds.nil ((Output.entity a).columns d)).append ih

theorem SortKey.infix_tokens (k : SortKey) : ∃ key ∈ k.tokens d, k.term.tokens d <:+: key := by
  obtain ⟨term, direction, nulls⟩ := k
  unfold SortKey.tokens orderingTokens
  split
  · exact ⟨_, List.mem_cons_self, List.infix_append_left⟩
  · split
    · exact ⟨_, List.mem_cons_self, List.infix_append_of_infix_left List.infix_append_left⟩
    · split
      · exact ⟨_, List.mem_cons_self, List.infix_append_of_infix_left List.infix_append_left⟩
      · exact ⟨_, List.mem_cons_self, List.infix_append_left⟩

theorem holds_sortKeys (ks : List SortKey) : Holds d (sortTokens d ks) (ks.map (·.term)) [] := by
  induction ks with
  | nil => exact .nil _
  | cons k rest ih =>
    have own : Holds d (k.tokens d) [k.term] [] := ⟨List.forall_mem_singleton.mpr k.infix_tokens, (Holds.nil _).selects⟩
    exact own.append ih

theorem JoinClause.holds (j : JoinClause) {c : Condition} (own : j.condition = some c) :
    Holds d [j.tokens d] c.terms c.selects := by
  obtain ⟨kind, target, link, condition⟩ := j
  cases own
  refine c.holds.inside ?_
  have listed (related : List (List Token)) : c.tokens d ∈ related ++ conditionOfJoin d (some c) :=
    List.mem_append_right _ List.mem_cons_self
  unfold JoinClause.tokens
  dsimp only
  rw [if_neg (mt List.isEmpty_iff.mp (List.ne_nil_of_mem (listed _)))]
  exact List.infix_append_of_infix_right (infix_joined (listed _))

theorem holds_joins (js : List JoinClause) : Holds d (js.map (·.tokens d))
    ((js.filterMap (·.condition)).flatMap Condition.terms) ((js.filterMap (·.condition)).flatMap Condition.selects) := by
  induction js with
  | nil => exact .nil _
  | cons j rest ih =>
    cases own : j.condition with
    | none =>
      rw [List.filterMap_cons_none own]
      exact (Holds.nil [j.tokens d]).append ih
    | some c =>
      rw [List.filterMap_cons_some own]
      exact (j.holds own).append ih

namespace Select

variable {s t : Select} {aliased : Bool}

/-- The text of each clause stands in the text of the query. -/
theorem infix_tokens {item : List Token} (inside : item <:+: s.headTokens d aliased ∨ item <:+: s.fromTokens d ∨
    item <:+: s.whereTokens d ∨ item <:+: clauseTokens ["GROUP", "BY"] comma (termTokens d s.groups) ∨
      item <:+: clauseTokens ["HAVING"] (wordBetween "AND") (conditionTokens d s.havings) ∨
        item <:+: clauseTokens ["ORDER", "BY"] comma (sortTokens d s.orderings)) : item <:+: s.tokens d aliased := by
  have clauses : s.tokens d aliased = [s.headTokens d aliased, s.fromTokens d, s.whereTokens d,
      clauseTokens ["GROUP", "BY"] comma (termTokens d s.groups),
      clauseTokens ["HAVING"] (wordBetween "AND") (conditionTokens d s.havings),
      clauseTokens ["ORDER", "BY"] comma (sortTokens d s.orderings), pagingTokens d s.limit s.offset].flatten := by
    rw [tokens_eq, bodyTokens, endTokens]
    simp only [List.flatten_cons, List.flatten_nil, List.append_nil, List.append_assoc]
  rw [clauses]
  rcases inside with own | own | own | own | own | own
  all_goals exact own.trans (List.infix_of_mem_flatten (by simp only [List.mem_cons, true_or, or_true]))

theorem infix_headTokens {column : List Token} (member : column ∈ s.selectList d) :
    column <:+: s.headTokens d aliased := by
  obtain ⟨named, listed, inside⟩ := infix_aliasedColumns aliased 0 member
  unfold headTokens
  rw [if_neg (mt List.isEmpty_iff.mp (List.ne_nil_of_mem member))]
  exact List.infix_append_of_infix_right (inside.trans (infix_joined listed))

theorem infix_fromTokens {j : JoinClause} (member : j ∈ s.joins) : j.tokens d <:+: s.fromTokens d := by
  have own : j.tokens d <:+: joinTokens d s.joins := by
    rw [joinTokens_eq]
    exact infix_flatMap member
  exact List.infix_append_of_infix_left (List.infix_append_of_infix_right own)

/-- The terms of a query's clauses and the queries of its conditions stand in its text. -/
theorem holds (d : Dialect) (aliased : Bool) (s : Select) :
    Holds d [s.tokens d aliased] s.terms (s.conditions.flatMap Condition.selects) := by
  have whole {items : List (List Token)} {ts : List Term} {ss : List Select} (parts : Holds d items ts ss)
      (inside : ∀ item ∈ items, item <:+: s.tokens d aliased) : Holds d [s.tokens d aliased] ts ss := parts.within inside
  have outputs := whole (holds_outputs s.outputs) fun column member =>
    infix_tokens (.inl (infix_headTokens (List.mem_append_left _ member)))
  have joins := whole (holds_joins s.joins) fun item member => by
    obtain ⟨j, listed, rfl⟩ := List.mem_map.mp member
    exact infix_tokens (.inr (.inl (infix_fromTokens listed)))
  have filters := whole (holds_conditions s.filters) fun item member =>
    infix_tokens (.inr (.inr (.inl (infix_clauseTokens member))))
  have groups := whole (holds_terms s.groups) fun item member =>
    infix_tokens (.inr (.inr (.inr (.inl (infix_clauseTokens member)))))
  have havings := whole (holds_conditions s.havings) fun item member =>
    infix_tokens (.inr (.inr (.inr (.inr (.inl (infix_clauseTokens member))))))
  have orderings := whole (holds_sortKeys s.orderings) fun item member =>
    infix_tokens (.inr (.inr (.inr (.inr (.inr (infix_clauseTokens member))))))
  constructor
  · simp only [terms, conditions, List.flatMap_append, List.forall_mem_append]
    exact ⟨⟨⟨outputs.terms, joins.terms, filters.terms, havings.terms⟩, groups.terms⟩, orderings.terms⟩
  · simp only [conditions, List.flatMap_append, List.forall_mem_append]
    exact ⟨joins.selects, filters.selects, havings.selects⟩

theorem table_rendered {t : FromTable} (d : Dialect) (aliased : Bool) (member : t ∈ s.tables) :
    t.tokens <:+: s.tokens d aliased := by
  rw [← s.tables_fromPieces] at member
  obtain ⟨piece, inside, rfl⟩ := List.mem_map.mp member
  refine infix_tokens (.inr (.inl ?_))
  rw [s.fromTokens_eq]
  exact List.infix_append_of_infix_right ((piece.infix_tokens d).trans (infix_flatMap inside))

/-- A rendered path stands in the text of its query as an alias and a column. -/
theorem column_rendered {owner : String} {path : Path} (d : Dialect) (aliased : Bool)
    (member : (owner, path) ∈ s.columns) : columnTokens owner path.column <:+: s.tokens d aliased := by
  obtain ⟨t, inside, own⟩ := List.mem_filterMap.mp member
  exact (Term.column_rendered own).trans ((s.holds d aliased).single.1 t inside)

theorem inner_rendered {u : Select} (d : Dialect) (aliased : Bool) (member : u ∈ s.inner) :
    u.tokens d false <:+: s.tokens d aliased := by
  have holds := (s.holds d aliased).single
  rcases List.mem_append.mp member with own | sought
  · obtain ⟨t, inside, found⟩ := List.mem_filterMap.mp own
    exact (Term.select_rendered found).trans (holds.1 t inside)
  · exact holds.2 u sought

/-- The text of a query at any depth stands in the text of the statement. -/
theorem Encloses.rendered {outer : List Select} (d : Dialect) (encloses : s.Encloses (t :: outer)) :
    t.tokens d false <:+: s.tokens d false := by
  generalize chain : t :: outer = levels at encloses
  induction encloses generalizing t outer with
  | whole =>
    cases chain
    exact List.infix_rfl
  | inner _ member ih =>
    cases chain
    exact (inner_rendered d false member).trans (ih rfl)

end Select

end EntityMapper
