import EntityMapper.Proofs.Compile.AliasEntities
import EntityMapper.Proofs.Sql.Conditions

namespace EntityMapper

/-- An atomic condition of a clause: a given one, what relates the rows of a join, and what stands for membership in an
empty list. -/
inductive Leaf where
  | given (p : Predicate)
  | related (owner : String) (association : Association) (target : String)
  | constant (truth : Bool)

namespace Predicate

mutual

/-- The atomic conditions of a tree from left to right, each without its negation. -/
def leaves : Predicate → List Leaf
  | .compare left op right => [.given (.compare left op right)]
  | .between expr low high => [.given (.between expr low high)]
  | .inValues expr values negated =>
    if values.isEmpty then [.constant negated] else [.given (.inValues expr values false)]
  | .inPlan expr plan _ => [.given (.inPlan expr plan false)]
  | .isNull expr _ => [.given (.isNull expr false)]
  | .exists plan _ => [.given (.exists plan false)]
  | .and items => leavesOfAll items
  | .or items => leavesOfAll items
  | .not inner => inner.leaves
termination_by structural p => p

def leavesOfAll : List Predicate → List Leaf
  | [] => []
  | item :: rest => item.leaves ++ leavesOfAll rest
termination_by structural ps => ps

end

mutual

/-- The truth of a tree, by the truth of its atomic conditions. Nothing is in an empty list. -/
def truth (v : Leaf → Truth) : Predicate → Truth
  | .compare left op right => v (.given (.compare left op right))
  | .between expr low high => v (.given (.between expr low high))
  | .inValues expr values negated =>
    if values.isEmpty then .ofBool negated else .signed negated (v (.given (.inValues expr values false)))
  | .inPlan expr plan negated => .signed negated (v (.given (.inPlan expr plan false)))
  | .isNull expr negated => .signed negated (v (.given (.isNull expr false)))
  | .exists plan negated => .signed negated (v (.given (.exists plan false)))
  | .and items => .all (truths v items)
  | .or items => .any (truths v items)
  | .not inner => (inner.truth v).not
termination_by structural p => p

def truths (v : Leaf → Truth) : List Predicate → List Truth
  | [] => []
  | item :: rest => item.truth v :: truths v rest
termination_by structural ps => ps

end

mutual

/-- No conjunction and no disjunction in the tree is empty. -/
def isFilled : Predicate → Bool
  | .and items => !items.isEmpty && allFilled items
  | .or items => !items.isEmpty && allFilled items
  | .not inner => inner.isFilled
  | .compare .. | .between .. | .inValues .. | .inPlan .. | .isNull .. | .exists .. => true
termination_by structural p => p

def allFilled : List Predicate → Bool
  | [] => true
  | item :: rest => item.isFilled && allFilled rest
termination_by structural ps => ps

end

theorem isFilled_and (items : List Predicate) :
    (Predicate.and items).isFilled = true ↔ items ≠ [] ∧ allFilled items = true := by
  simp [isFilled]

theorem isFilled_or (items : List Predicate) :
    (Predicate.or items).isFilled = true ↔ items ≠ [] ∧ allFilled items = true := by
  simp [isFilled]

end Predicate

/-- The text of an atomic condition in a clause. -/
def Leaf.atom (registry : Registry) (scopes : List Scope) (clause : Clause) (d : Dialect) : Leaf → Atom
  | given p => ((Condition.ofPredicate registry scopes clause p).toOption.bind (·.atom? d)).getD default
  | related owner a target =>
    .compare (lexemesOf (columnTokens owner a.ownerColumn)) "=" (lexemesOf (columnTokens target a.targetColumn))
  | constant truth => ((Condition.constant truth).atom? d).getD default

namespace Leaf

variable {registry : Registry} {scopes : List Scope} {clause : Clause} {d : Dialect}

theorem atom_related (owner : String) (a : Association) (target : String) :
    Leaf.atom registry scopes clause d (.related owner a target) =
      .compare (lexemesOf (columnTokens owner a.ownerColumn)) "=" (lexemesOf (columnTokens target a.targetColumn)) :=
  rfl

/-- What stands for membership in an empty list compares numbers. -/
theorem atom_constant (truth : Bool) :
    Leaf.atom registry scopes clause d (.constant truth) =
      .compare [.word "1"] "=" [.word (if truth then "1" else "0")] :=
  rfl

theorem atom_compare {left right : Expr} {l r : Term} (op : CompareOp)
    (onLeft : Term.ofExpr registry scopes clause left = .ok l)
    (onRight : Term.ofExpr registry scopes clause right = .ok r) :
    Leaf.atom registry scopes clause d (.given (.compare left op right)) =
      .compare (lexemesOf (l.tokens d)) op.symbol (lexemesOf (r.tokens d)) := by
  rw [atom, Condition.ofPredicate, onLeft, Except.ok_bind, onRight]
  rfl

theorem atom_between {expr low high : Expr} {e l h : Term} (atExpr : Term.ofExpr registry scopes clause expr = .ok e)
    (atLow : Term.ofExpr registry scopes clause low = .ok l) (atHigh : Term.ofExpr registry scopes clause high = .ok h) :
    Leaf.atom registry scopes clause d (.given (.between expr low high)) =
      .between (lexemesOf (e.tokens d)) (lexemesOf (l.tokens d)) (lexemesOf (h.tokens d)) := by
  rw [atom, Condition.ofPredicate, atExpr, Except.ok_bind, atLow, Except.ok_bind, atHigh]
  rfl

theorem atom_inValues {expr : Expr} {values : List Expr} {e : Term} {vs : List Term} (filled : ¬values.isEmpty = true)
    (atExpr : Term.ofExpr registry scopes clause expr = .ok e)
    (atValues : termsOfExprs registry scopes clause values = .ok vs) :
    Leaf.atom registry scopes clause d (.given (.inValues expr values false)) =
      .among (lexemesOf (e.tokens d)) (lexemesOf (joined comma (termTokens d vs))) := by
  rw [atom, Condition.ofPredicate, if_neg filled, atExpr, Except.ok_bind, atValues]
  rfl

theorem atom_inPlan {expr : Expr} {plan : Plan} {e : Term} {s : Select}
    (atExpr : Term.ofExpr registry scopes clause expr = .ok e)
    (atPlan : Select.ofPlan registry scopes .values plan = .ok s) :
    Leaf.atom registry scopes clause d (.given (.inPlan expr plan false)) =
      .among (lexemesOf (e.tokens d)) (lexemesOf (s.tokens d false)) := by
  rw [atom, Condition.ofPredicate, atExpr, Except.ok_bind, atPlan]
  rfl

theorem atom_isNull {expr : Expr} {e : Term} (atExpr : Term.ofExpr registry scopes clause expr = .ok e) :
    Leaf.atom registry scopes clause d (.given (.isNull expr false)) = .null (lexemesOf (e.tokens d)) := by
  rw [atom, Condition.ofPredicate, atExpr]
  rfl

theorem atom_exists {plan : Plan} {s : Select} (atPlan : Select.ofPlan registry scopes .existence plan = .ok s) :
    Leaf.atom registry scopes clause d (.given (.exists plan false)) = .existence (lexemesOf (s.tokens d false)) := by
  rw [atom, Condition.ofPredicate, atPlan]
  rfl

end Leaf

/-- The truth of constants is their own. -/
def Settles (v : Leaf → Truth) : Prop := ∀ truth, v (.constant truth) = .ofBool truth

/-- Lexemes read as a condition that is made of the given atomic ones, in order, and has the given truth whatever the
truth of these. -/
def Means (atom : Leaf → Atom) (b : Binding) (ls : List Lexeme) (leaves : List Leaf)
    (truth : (Leaf → Truth) → Truth) : Prop :=
  ∃ f : Formula Leaf, Reads b ls (f.map atom) ∧ f.atoms = leaves ∧ ∀ v, Settles v → f.truth v = truth v

namespace Means

variable {atom : Leaf → Atom} {b : Binding} {ls ms : List Lexeme} {leaves more : List Leaf}
  {truth other : (Leaf → Truth) → Truth}

theorem leaf {l : Leaf} (negated : Bool) (reads : Reads b ls (.signed negated (.atom (atom l)))) :
    Means atom b ls [l] fun v => .signed negated (v l) := by
  cases negated with
  | false => exact ⟨.atom l, reads, rfl, fun _ _ => rfl⟩
  | true => exact ⟨.not (.atom l), reads, rfl, fun _ _ => rfl⟩

theorem factor {c : Condition} (means : Means atom c.binding ls leaves truth) : Means atom .factor ls leaves truth := by
  obtain ⟨f, reads, same, value⟩ := means
  refine ⟨f, ?_, same, value⟩
  cases c with
  | and | or => exact .factor reads
  | compare | between | constant | inValues | inSelect | isNull | «exists» | not => exact reads

theorem term (means : Means atom .factor ls leaves truth) : Means atom .term ls leaves truth := by
  obtain ⟨f, reads, same, value⟩ := means
  exact ⟨f, .term reads, same, value⟩

theorem condition (means : Means atom .term ls leaves truth) : Means atom .condition ls leaves truth := by
  obtain ⟨f, reads, same, value⟩ := means
  exact ⟨f, .condition reads, same, value⟩

theorem group (means : Means atom .condition ls leaves truth) : Means atom .primary (enclosed ls) leaves truth := by
  obtain ⟨f, reads, same, value⟩ := means
  exact ⟨f, .group reads, same, value⟩

theorem not (means : Means atom .primary ls leaves truth) :
    Means atom .factor (.word "NOT" :: ls) leaves fun v => (truth v).not := by
  obtain ⟨f, reads, same, value⟩ := means
  exact ⟨.not f, .not reads, same, fun v settles => congrArg Truth.not (value v settles)⟩

theorem and (left : Means atom .factor ls leaves truth) (right : Means atom .term ms more other) :
    Means atom .term (ls ++ .word "AND" :: ms) (leaves ++ more) fun v => (truth v).and (other v) := by
  obtain ⟨f, reads, same, value⟩ := left
  obtain ⟨g, readsOn, also, further⟩ := right
  refine ⟨.and f g, .and reads readsOn, ?_, fun v settles => ?_⟩
  · rw [Formula.atoms, same, also]
  · rw [Formula.truth, value v settles, further v settles]

theorem or (left : Means atom .term ls leaves truth) (right : Means atom .condition ms more other) :
    Means atom .condition (ls ++ .word "OR" :: ms) (leaves ++ more) fun v => (truth v).or (other v) := by
  obtain ⟨f, reads, same, value⟩ := left
  obtain ⟨g, readsOn, also, further⟩ := right
  refine ⟨.or f g, .or reads readsOn, ?_, fun v settles => ?_⟩
  · rw [Formula.atoms, same, also]
  · rw [Formula.truth, value v settles, further v settles]

theorem congr (means : Means atom b ls leaves truth) (same : ∀ v, Settles v → truth v = other v) :
    Means atom b ls leaves other := by
  obtain ⟨f, reads, atoms, value⟩ := means
  exact ⟨f, reads, atoms, fun v settles => (value v settles).trans (same v settles)⟩

end Means

/-- Items, each of which reads as a condition that may be negated, with their atomic conditions and truths. -/
inductive MeansEach (atom : Leaf → Atom) : List (List Token) → List Leaf → ((Leaf → Truth) → List Truth) → Prop
  | nil : MeansEach atom [] [] fun _ => []
  | cons {item : List Token} {items : List (List Token)} {leaves more : List Leaf} {truth : (Leaf → Truth) → Truth}
      {truths : (Leaf → Truth) → List Truth} : Means atom .factor (lexemesOf item) leaves truth →
      MeansEach atom items more truths → MeansEach atom (item :: items) (leaves ++ more) fun v => truth v :: truths v

section Reading

variable {registry : Registry} {scopes : List Scope} {clause : Clause} {d : Dialect} {atom : Leaf → Atom}

/-- A condition with the text of an atomic one, whether that is negated or not. -/
theorem Condition.means_atom {c : Condition} {l : Leaf} {a : Atom} (text : atom l = a) (own : c.atom? d = some a) :
    Means atom .factor (lexemesOf (c.tokens d)) [l] fun v => .signed c.isNegated (v l) := by
  cases text
  exact .leaf c.isNegated (Condition.reads_atom own)

/-- A negation puts its condition into parentheses unless that has its own. -/
theorem Condition.means_not {c : Condition} {leaves : List Leaf} {truth : (Leaf → Truth) → Truth}
    (means : Means atom c.binding (lexemesOf (c.tokens d)) leaves truth) :
    Means atom .factor (lexemesOf ((Condition.not c).tokens d)) leaves fun v => (truth v).not := by
  have enclosing (inner : Means atom .factor (lexemesOf (c.tokens d)) leaves truth) :
      Means atom .factor (lexemesOf ([.word "NOT", .space] ++ parenthesized (c.tokens d))) leaves
        fun v => (truth v).not := by
    rw [lexemesOf_append, lexemesOf_parenthesized]
    exact .not inner.term.condition.group
  cases c with
  | and | or => exact .not means
  | compare | between | constant | inValues | inSelect | isNull | «exists» | not => exact enclosing means

namespace MeansEach

variable {items : List (List Token)} {leaves : List Leaf} {truths : (Leaf → Truth) → List Truth}

theorem append {xs ys : List (List Token)} {more : List Leaf} {others : (Leaf → Truth) → List Truth}
    (left : MeansEach atom xs leaves truths) (right : MeansEach atom ys more others) :
    MeansEach atom (xs ++ ys) (leaves ++ more) fun v => truths v ++ others v := by
  induction left with
  | nil => exact right
  | cons first _ ih =>
    rw [List.append_assoc]
    exact .cons first ih

theorem conjunction (each : MeansEach atom items leaves truths) (some : items ≠ []) :
    Means atom .term (lexemesOf (joined (wordBetween "AND") items)) leaves fun v => .all (truths v) := by
  induction each with
  | nil => exact absurd rfl some
  | @cons item items _ _ _ _ first rest ih =>
    cases rest with
    | nil =>
      rw [joined_singleton, List.append_nil]
      exact first.term.congr fun v _ => (Truth.and_yes _).symm
    | cons =>
      rw [joined_cons_cons, wordBetween, lexemesOf_append, lexemesOf_append]
      exact .and first (ih (List.cons_ne_nil _ _))

theorem disjunction (each : MeansEach atom items leaves truths) (some : items ≠ []) :
    Means atom .condition (lexemesOf (joined (wordBetween "OR") items)) leaves fun v => .any (truths v) := by
  induction each with
  | nil => exact absurd rfl some
  | @cons item items _ _ _ _ first rest ih =>
    cases rest with
    | nil =>
      rw [joined_singleton, List.append_nil]
      exact first.term.condition.congr fun v _ => (Truth.or_no _).symm
    | cons =>
      rw [joined_cons_cons, wordBetween, lexemesOf_append, lexemesOf_append]
      exact .or first.term (ih (List.cons_ne_nil _ _))

end MeansEach

theorem conditionTokens_ne_nil {ps : List Predicate} {cs : List Condition}
    (run : conditionsOfPredicates registry scopes clause ps = .ok cs) (some : ps ≠ []) : conditionTokens d cs ≠ [] := by
  cases ps with
  | nil => exact absurd rfl some
  | cons p rest =>
    obtain ⟨c, _, run⟩ := Except.bind_eq_ok.mp run
    obtain ⟨cs, _, run⟩ := Except.bind_eq_ok.mp run
    cases run
    exact List.cons_ne_nil _ _

mutual

/-- The text of a resolved tree reads as the tree. -/
theorem Condition.means_ofPredicate : ∀ (p : Predicate) (c : Condition),
    Condition.ofPredicate registry scopes clause p = .ok c → p.isFilled = true →
      Means (Leaf.atom registry scopes clause d) c.binding (lexemesOf (c.tokens d)) p.leaves fun v => p.truth v
  | .compare left op right, c, run, _ => by
    obtain ⟨l, onLeft, built⟩ := Except.bind_eq_ok.mp run
    obtain ⟨r, onRight, built⟩ := Except.bind_eq_ok.mp built
    cases built
    exact means_atom (Leaf.atom_compare op onLeft onRight) rfl
  | .between expr low high, c, run, _ => by
    obtain ⟨e, atExpr, built⟩ := Except.bind_eq_ok.mp run
    obtain ⟨l, atLow, built⟩ := Except.bind_eq_ok.mp built
    obtain ⟨h, atHigh, built⟩ := Except.bind_eq_ok.mp built
    cases built
    exact means_atom (Leaf.atom_between atExpr atLow atHigh) rfl
  | .inValues expr values negated, c, run, _ => by
    unfold Condition.ofPredicate at run
    split at run
    case isTrue empty =>
      cases run
      have leaves : (Predicate.inValues expr values negated).leaves = [.constant negated] := if_pos empty
      have truth (v : Leaf → Truth) : (Predicate.inValues expr values negated).truth v = .ofBool negated := if_pos empty
      rw [leaves]
      refine (means_atom (Leaf.atom_constant negated) rfl).congr fun v settles => ?_
      rw [truth]
      exact settles negated
    case isFalse filled =>
      obtain ⟨e, atExpr, built⟩ := Except.bind_eq_ok.mp run
      obtain ⟨vs, atValues, built⟩ := Except.bind_eq_ok.mp built
      cases built
      have leaves : (Predicate.inValues expr values negated).leaves = [.given (.inValues expr values false)] :=
        if_neg filled
      rw [leaves]
      exact (means_atom (Leaf.atom_inValues filled atExpr atValues) rfl).congr fun v _ => (if_neg filled).symm
  | .inPlan expr plan negated, c, run, _ => by
    obtain ⟨e, atExpr, built⟩ := Except.bind_eq_ok.mp run
    obtain ⟨select, atPlan, built⟩ := Except.bind_eq_ok.mp built
    cases built
    exact means_atom (Leaf.atom_inPlan atExpr atPlan) rfl
  | .isNull expr negated, c, run, _ => by
    obtain ⟨e, atExpr, built⟩ := Except.bind_eq_ok.mp run
    cases built
    exact means_atom (Leaf.atom_isNull atExpr) rfl
  | .exists plan negated, c, run, _ => by
    obtain ⟨select, atPlan, built⟩ := Except.bind_eq_ok.mp run
    cases built
    exact means_atom (Leaf.atom_exists atPlan) rfl
  | .and items, c, run, filled => by
    obtain ⟨cs, resolved, built⟩ := Except.bind_eq_ok.mp run
    cases built
    obtain ⟨some, filled⟩ := (Predicate.isFilled_and items).mp filled
    have each := means_ofPredicates items cs resolved filled
    rw [Condition.tokens, lexemesOf_parenthesized]
    exact (each.conjunction (conditionTokens_ne_nil resolved some)).condition.group
  | .or items, c, run, filled => by
    obtain ⟨cs, resolved, built⟩ := Except.bind_eq_ok.mp run
    cases built
    obtain ⟨some, filled⟩ := (Predicate.isFilled_or items).mp filled
    have each := means_ofPredicates items cs resolved filled
    rw [Condition.tokens, lexemesOf_parenthesized]
    exact (each.disjunction (conditionTokens_ne_nil resolved some)).group
  | .not inner, c, run, filled => by
    obtain ⟨c, resolved, built⟩ := Except.bind_eq_ok.mp run
    cases built
    exact Condition.means_not (Condition.means_ofPredicate inner c resolved filled)
termination_by structural p => p

theorem Condition.means_ofPredicates : ∀ (ps : List Predicate) (cs : List Condition),
    conditionsOfPredicates registry scopes clause ps = .ok cs → Predicate.allFilled ps = true →
      MeansEach (Leaf.atom registry scopes clause d) (conditionTokens d cs) (Predicate.leavesOfAll ps) fun v =>
        Predicate.truths v ps
  | [], _, run, _ => by
    cases run
    exact .nil
  | p :: rest, _, run, filled => by
    obtain ⟨c, resolved, run⟩ := Except.bind_eq_ok.mp run
    obtain ⟨cs, others, run⟩ := Except.bind_eq_ok.mp run
    cases run
    obtain ⟨own, filled⟩ := Bool.and_eq_true_iff.mp filled
    have first := Condition.means_ofPredicate p c resolved own
    exact .cons first.factor (Condition.means_ofPredicates rest cs others filled)
termination_by structural ps => ps

end

end Reading

/-- The atomic conditions of a join, the one that relates its rows first. -/
def Join.leaves (j : Join) : List Leaf :=
  (j.link.map fun (owner, a) => Leaf.related owner a j.target.name).toList ++ Predicate.leavesOfAll j.condition.toList

def Join.truths (j : Join) (v : Leaf → Truth) : List Truth :=
  (j.link.map fun (owner, a) => v (.related owner a j.target.name)).toList ++ Predicate.truths v j.condition.toList

/-- The text of tokens has, behind its opening and a space, a condition that can be read in one way only: it is made of
the given atomic ones, in order, and has the given truth whatever the truth of these. -/
def Conveys (d : Dialect) (front ts : List Token) (atom : Leaf → Atom) (leaves : List Leaf)
    (truth : (Leaf → Truth) → Truth) : Prop :=
  ∀ last n, ∃ text, Writer.written d last n ts = Writer.written d last n front ++ ' ' :: text ∧
    ∃ f : Formula Leaf, (∀ g, Reads .condition (d.lexemes text) g ↔ g = f.map atom) ∧ f.atoms = leaves ∧
      ∀ v, Settles v → f.truth v = truth v

section Clauses

variable {registry : Registry} {scopes : List Scope} {clause : Clause} {d : Dialect} {atom : Leaf → Atom}
  {leaves : List Leaf}

theorem Means.conveys {front body : List Token} {truth : (Leaf → Truth) → Truth} (closed : Closed front)
    (tidy : Tidy false body) (means : Means atom .condition (lexemesOf body) leaves truth) :
    Conveys d front (front ++ .space :: body) atom leaves truth := by
  intro last n
  obtain ⟨c, ends, solid⟩ := Writer.last_written d last n closed
  obtain ⟨f, reads, same, value⟩ := means
  refine ⟨Writer.written d (some ' ') (n + (Token.params front).length) body, ?_, f, fun g => ?_, same, value⟩
  · rw [Writer.written_append, ends, Option.some_or, Writer.written_space d _ body solid]
  · rw [lexemes_written tidy]
    constructor
    · intro other
      exact (other.determined _ _ [] [] reads rfl (Binding.stops_nil _) (Binding.stops_nil _)).2.2
    · rintro rfl
      exact reads

theorem MeansEach.conveys {front : List Token} {items : List (List Token)} {truths : (Leaf → Truth) → List Truth}
    (closed : Closed front) (tidy : ∀ item ∈ items, Tidy false item) (each : MeansEach atom items leaves truths)
    (some : items ≠ []) :
    Conveys d front (front ++ .space :: joined (wordBetween "AND") items) atom leaves fun v => .all (truths v) :=
  (each.conjunction some).condition.conveys closed (tidy_joined (separates_wordBetween "AND" (by decide)) tidy)

theorem Means.related (owner : String) (a : Association) (target : String) :
    Means (Leaf.atom registry scopes clause d) .factor (lexemesOf (linkTokens owner a target))
      [.related owner a target] fun v => v (.related owner a target) := by
  refine .leaf false (.factor ?_)
  rw [linkTokens, lexemesOf_around, Leaf.atom_related]
  exact .test (operand_columnTokens owner a.ownerColumn)
    (.compare (by decide) (operand_columnTokens target a.targetColumn))

theorem conditionsOfPredicates_toList {p? : Option Predicate} {c? : Option Condition}
    (run : conditionOfOption registry scopes p? = .ok c?) :
    conditionsOfPredicates registry scopes .join p?.toList = .ok c?.toList := by
  cases conditionOfOption_ok run with
  | none => rfl
  | some resolved =>
    rw [Option.toList_some, conditionsOfPredicates, resolved]
    rfl

namespace JoinClause

theorem items_ne_nil {j : Join} {c : JoinClause} (run : ofJoin registry scopes j = .ok c)
    (some : j.association.isSome ∨ j.condition.isSome) : c.items d ≠ [] := by
  obtain ⟨_, link, resolved⟩ := JoinClause.ofJoin_ok run
  rcases some with followed | conditional
  · obtain ⟨path, own⟩ := Option.isSome_iff_exists.mp followed
    rw [items, link, Join.link, own]
    exact List.cons_ne_nil _ _
  · obtain ⟨p, own⟩ := Option.isSome_iff_exists.mp conditional
    rw [own] at resolved
    exact List.append_ne_nil_of_right_ne_nil _
      (conditionTokens_ne_nil (conditionsOfPredicates_toList resolved) (List.cons_ne_nil p []))

theorem means_items {j : Join} {c : JoinClause} (run : ofJoin registry scopes j = .ok c)
    (filled : Predicate.allFilled j.condition.toList = true) :
    MeansEach (Leaf.atom registry scopes .join d) (c.items d) j.leaves j.truths := by
  obtain ⟨target, link, resolved⟩ := JoinClause.ofJoin_ok run
  rw [items, target, link]
  refine MeansEach.append ?_ (Condition.means_ofPredicates _ _ (conditionsOfPredicates_toList resolved) filled)
  cases j.link with
  | none => exact .nil
  | some link => exact .cons (.related link.1 link.2 j.target.name) .nil

theorem conveys {j : Join} {c : JoinClause} (run : ofJoin registry scopes j = .ok c)
    (some : j.association.isSome ∨ j.condition.isSome) (filled : Predicate.allFilled j.condition.toList = true) :
    Conveys d c.front (c.tokens d) (Leaf.atom registry scopes .join d) j.leaves fun v => .all (j.truths v) := by
  have listed := items_ne_nil run some (d := d)
  have closed : Closed c.front := closed_append _ (closed_append [.space] (closed_singleton (by decide)))
  rw [tokens_eq listed]
  exact (means_items run filled).conveys closed (c.tidy_items d) listed

end JoinClause

theorem conveys_clause (keyword : String) (closes : (Token.word keyword).closes = true) {ps : List Predicate}
    {cs : List Condition} (run : conditionsOfPredicates registry scopes clause ps = .ok cs) (some : ps ≠ [])
    (filled : Predicate.allFilled ps = true) :
    Conveys d (words [keyword]) (clauseTokens [keyword] (wordBetween "AND") (conditionTokens d cs))
      (Leaf.atom registry scopes clause d) (Predicate.leavesOfAll ps) fun v => .all (Predicate.truths v ps) := by
  have listed : conditionTokens d cs ≠ [] := conditionTokens_ne_nil run some
  rw [clauseTokens, if_neg (mt List.isEmpty_iff.mp listed), List.append_assoc]
  exact (Condition.means_ofPredicates ps cs run filled).conveys (closed_append [.space] (closed_singleton closes))
    (tidy_conditions d cs) listed

/-- A plan that is counted on its sources has no conditions on groups. -/
theorem Plan.resolveCount_sources {p : Plan} {s : Select} (run : p.resolveCount registry = .ok (.sources s)) :
    ∃ scope, Scope.ofPlan registry [] p = .ok scope ∧ clausesOfJoins registry [scope] p.joins = .ok s.joins ∧
      conditionsOfPredicates registry [scope] .filter p.filters = .ok s.filters ∧
      conditionsOfPredicates registry [scope] .having p.havings = .ok s.havings := by
  unfold resolveCount at run
  split at run
  case isTrue =>
    obtain ⟨_, _, run⟩ := Except.bind_eq_ok.mp run
    cases run
  case isFalse plain =>
    simp only [needsDerivedCount, Bool.or_eq_true, not_or, Bool.not_eq_true', Bool.not_eq_false,
      List.isEmpty_iff] at plain
    obtain ⟨⟨_, unrestricted⟩, _⟩ := plain
    obtain ⟨t, counted, run⟩ := Except.bind_eq_ok.mp run
    cases run
    obtain ⟨scope, opened, counted⟩ := Except.bind_eq_ok.mp counted
    obtain ⟨_, _, counted⟩ := Except.bind_eq_ok.mp counted
    obtain ⟨_, _, counted⟩ := Except.bind_eq_ok.mp counted
    obtain ⟨joins, atJoins, counted⟩ := Except.bind_eq_ok.mp counted
    obtain ⟨filters, atFilters, counted⟩ := Except.bind_eq_ok.mp counted
    cases counted
    refine ⟨scope, opened, atJoins, atFilters, ?_⟩
    rw [unrestricted]
    rfl

end Clauses

/-- What a query's clauses say of its rows is what the conditions of its plan mean, where none of them is empty. -/
structure Plan.Conveyed (registry : Registry) (scopes : List Scope) (d : Dialect) (p : Plan) (s : Select) : Prop where
  filters : p.filters ≠ [] → Predicate.allFilled p.filters = true →
    Conveys d (words ["WHERE"]) (s.whereTokens d) (Leaf.atom registry scopes .filter d)
      (Predicate.leavesOfAll p.filters) fun v => .all (Predicate.truths v p.filters)
  havings : p.havings ≠ [] → Predicate.allFilled p.havings = true →
    Conveys d (words ["HAVING"]) (s.havingTokens d) (Leaf.atom registry scopes .having d)
      (Predicate.leavesOfAll p.havings) fun v => .all (Predicate.truths v p.havings)
  joins : List.Forall₂ (fun j c => j.association.isSome ∨ j.condition.isSome →
    Predicate.allFilled j.condition.toList = true →
      Conveys d c.front (c.tokens d) (Leaf.atom registry scopes .join d) j.leaves fun v => .all (j.truths v))
    p.joins s.joins

theorem Plan.conveyed {registry : Registry} {scopes : List Scope} {p : Plan} {s : Select} (d : Dialect)
    (joins : clausesOfJoins registry scopes p.joins = .ok s.joins)
    (filters : conditionsOfPredicates registry scopes .filter p.filters = .ok s.filters)
    (havings : conditionsOfPredicates registry scopes .having p.havings = .ok s.havings) :
    p.Conveyed registry scopes d s where
  filters := conveys_clause "WHERE" (by decide) filters
  havings := conveys_clause "HAVING" (by decide) havings
  joins := (Except.mapM_eq_ok.mp ((clausesOfJoins_eq _).symm.trans joins)).imp fun j c run => JoinClause.conveys run

/-- The conditions of a query mean what the trees say, at any depth of nesting and where its rows are counted. -/
theorem Plan.conditions_convey (registry : Registry) (d : Dialect) (p : Plan) :
    (∀ outer role s, Select.ofPlan registry outer role p = .ok s → ∃ scope, Scope.ofPlan registry outer p = .ok scope ∧
      p.Conveyed registry (scope :: outer) d s ∧
        ∀ aliased, s.tokens d aliased = s.headTokens d aliased ++ s.fromTokens d ++ s.whereTokens d ++
          s.groupTokens d ++ s.havingTokens d ++ s.endTokens d) ∧
    ∀ s, p.resolveCount registry = .ok (.sources s) → ∃ scope, Scope.ofPlan registry [] p = .ok scope ∧
      p.Conveyed registry [scope] d s ∧
        (CountQuery.sources s).tokens d = countWord ++ s.fromTokens d ++ s.whereTokens d := by
  constructor
  · intro outer role s run
    obtain ⟨scope, r⟩ := Select.ofPlan_eq_ok.mp run
    exact ⟨scope, r.opened, Plan.conveyed d r.joins r.filters r.havings, fun aliased => s.tokens_clauses d aliased⟩
  · intro s run
    obtain ⟨scope, opened, joins, filters, havings⟩ := Plan.resolveCount_sources run
    exact ⟨scope, opened, Plan.conveyed d joins filters havings, rfl⟩

def taskNumber : Expr := .path (taskAs "task").id

def taskCount : Expr := .aggregate .count taskNumber false

/-- The tasks of each project that have one of several numbers, joined on a further choice, where there are few. -/
def tasksPerProject : Plan where
  projections := [.expr (taskPath "task" "parent" [] "title"), .expr taskCount]
  sources := [taskAs "task"]
  joins := [⟨.left, projectAs "project", ((taskAs "task").association tracker "parent").toOption,
    some (.or [.isNull (.path (projectAs "project").id) true, .compare taskNumber .gt (.literal (.int 5))]), false⟩]
  filters := [.or [.compare taskNumber .eq (.literal (.int 1)),
      .not (.and [.isNull (.path (projectAs "project").id) true,
        .between taskNumber (.literal (.int 2)) (.literal (.int 9))])],
    .inValues taskNumber [] true]
  groups := [taskPath "task" "parent" [] "title"]
  havings := [.not (.compare taskCount .gt (.literal (.int 3)))]
  orderings := []
  offset := none
  limit := none
  distinct := false

theorem conditions_convey_tasksPerProject : ∃ s scope c, tasksPerProject.resolve tracker = .ok s ∧
    Scope.ofPlan tracker [] tasksPerProject = .ok scope ∧ s.joins = [c] ∧
      Conveys .postgres (words ["WHERE"]) (s.whereTokens .postgres) (Leaf.atom tracker [scope] .filter .postgres)
        (Predicate.leavesOfAll tasksPerProject.filters) (fun v => .all (Predicate.truths v tasksPerProject.filters)) ∧
      Conveys .postgres (words ["HAVING"]) (s.havingTokens .postgres) (Leaf.atom tracker [scope] .having .postgres)
        (Predicate.leavesOfAll tasksPerProject.havings) (fun v => .all (Predicate.truths v tasksPerProject.havings)) ∧
      ∃ j, tasksPerProject.joins = [j] ∧ Conveys .postgres c.front (c.tokens .postgres)
        (Leaf.atom tracker [scope] .join .postgres) j.leaves fun v => .all (j.truths v) := by
  have resolved : tasksPerProject.resolve tracker = .ok _ := rfl
  obtain ⟨scope, opened, conveyed, _⟩ :=
    (Plan.conditions_convey tracker .postgres tasksPerProject).1 [] .rows _ resolved
  have joins := List.forall₂_cons.mp conveyed.joins
  exact ⟨_, scope, _, resolved, opened, rfl, conveyed.filters (by decide) rfl, conveyed.havings (by decide) rfl, _, rfl,
    joins.1 (.inl rfl) rfl⟩

example : ((conditionsOfPredicates tracker [] .filter [.or [.isNull (.literal (.int 1)) true,
    .not (.and [.between (.literal (.int 2)) (.literal (.int 3)) (.literal (.int 4)), .inValues taskNumber [] false])],
    .not (.isNull (.literal .null) false)]).toOption.map fun cs =>
      Writer.written .sqlite (some ' ') 0 (joined (wordBetween "AND") (conditionTokens .sqlite cs))) =
    some "(? IS NOT NULL OR NOT (? BETWEEN ? AND ? AND 1 = 0)) AND NOT (NULL IS NULL)".toList := by
  decide

end EntityMapper
